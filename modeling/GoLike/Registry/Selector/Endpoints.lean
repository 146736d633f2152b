import GoLike.Lib.CodePointOrder
import GoLike.Lib.JsMap
import GoLike.Lib.LengthPrefix
import GoLike.Registry.Instance
import Mathlib.Data.Finset.Sort

/-!
# Endpoints and domains of a selection

A selector copies the service instances it is given, and selects among their endpoints. What a
selector remembers is kept for a domain: the names and versions of the instances.

Names are compared by walking over two strings code point by code point; the domain of a selection
and the identity of an endpoint determine what they are made of.
-/

open Store

namespace Registry

variable {urls : UrlParser}

/-! ### Snapshots -/

/-- Copy service instances whose identities are distinct. -/
def copyServiceInstances (urls : UrlParser) (identities : List JsonText) :
    List ServiceInstanceInput → Except RegistryError (List (ServiceInstance urls))
  | [] => .ok []
  | value :: values => do
      let snapshot ← snapshotServiceInstance urls value
      if identities.contains (identity snapshot) then
        .error (.typeError "ServiceInstance snapshot contains a duplicate service identity")
      else
        let snapshots ← copyServiceInstances urls (identity snapshot :: identities) values
        .ok (snapshot :: snapshots)

/-- A complete snapshot of service instances that are not validated yet. -/
def copySnapshot (urls : UrlParser) (values : List ServiceInstanceInput) :
    Except RegistryError (List (ServiceInstance urls)) := do
  let snapshots ← copyServiceInstances urls [] values
  .ok (sortInstances snapshots)

/-- The copies of the instances that are valid. -/
def validInstances (urls : UrlParser) (values : List ServiceInstanceInput) :
    List (ServiceInstance urls) :=
  values.filterMap (fun value => (snapshotServiceInstance urls value).toOption)

theorem validInstances_cons {value : ServiceInstanceInput} {x : ServiceInstance urls}
    (h : snapshotServiceInstance urls value = .ok x) (values : List ServiceInstanceInput) :
  validInstances urls (value :: values) = x :: validInstances urls values
  := List.filterMap_cons_some (by rw [h]; rfl)

variable {values : List ServiceInstanceInput}

/-- Instances are copied if they are valid and have distinct identities. -/
theorem copyServiceInstances_eq_ok {identities : List JsonText}
    {snapshots : List (ServiceInstance urls)} :
  copyServiceInstances urls identities values = .ok snapshots ↔
    (∀ value ∈ values, ∃ x, snapshotServiceInstance urls value = .ok x) ∧
      snapshots = validInstances urls values ∧ DistinctIdentities snapshots ∧
      ∀ x ∈ snapshots, identity x ∉ identities
  := by
  induction values generalizing identities snapshots with
  | nil =>
      rw [copyServiceInstances, Except.ok.injEq]
      constructor
      · rintro rfl
        exact ⟨fun _ h => absurd h List.not_mem_nil, rfl, .nil, fun _ h => absurd h List.not_mem_nil⟩
      · rintro ⟨_, rfl, _⟩
        rfl
  | cons value values ih =>
      rw [copyServiceInstances, bind_eq_ok]
      constructor
      · rintro ⟨x, hx, h⟩
        split at h
        · cases h
        · rename_i hnew
          rw [bind_eq_ok] at h
          obtain ⟨others, hothers, h⟩ := h
          obtain rfl : x :: others = snapshots := Except.ok.inj h
          obtain ⟨hvalid, rfl, hdistinct, hfresh⟩ := ih.mp hothers
          rw [Bool.not_eq_true, List.contains_eq_mem, decide_eq_false_iff_not] at hnew
          refine ⟨?_, (validInstances_cons hx values).symm, ?_, ?_⟩
          · intro v hv
            obtain rfl | hv := List.mem_cons.mp hv
            · exact ⟨x, hx⟩
            · exact hvalid v hv
          · rw [DistinctIdentities, List.map_cons, List.nodup_cons]
            refine ⟨?_, hdistinct⟩
            intro hmem
            obtain ⟨y, hy, heq⟩ := List.mem_map.mp hmem
            exact hfresh y hy (heq ▸ List.mem_cons_self)
          · intro y hy
            obtain rfl | hy := List.mem_cons.mp hy
            · exact hnew
            · exact fun hmem => hfresh y hy (List.mem_cons_of_mem _ hmem)
      · rintro ⟨hvalid, rfl, hdistinct, hfresh⟩
        obtain ⟨x, hx⟩ := hvalid value List.mem_cons_self
        rw [validInstances_cons hx] at hdistinct hfresh ⊢
        rw [DistinctIdentities, List.map_cons, List.nodup_cons] at hdistinct
        refine ⟨x, hx, ?_⟩
        have hnew : identities.contains (identity x) = false := by
          rw [List.contains_eq_mem, decide_eq_false_iff_not]
          exact hfresh x List.mem_cons_self
        rw [hnew, if_neg Bool.false_ne_true, bind_eq_ok]
        refine ⟨_, ih.mpr ⟨?_, rfl, hdistinct.2, ?_⟩, rfl⟩
        · exact fun v hv => hvalid v (List.mem_cons_of_mem _ hv)
        · intro y hy hmem
          obtain heq | hmem := List.mem_cons.mp hmem
          · exact hdistinct.1 (heq ▸ List.mem_map_of_mem hy)
          · exact hfresh y (List.mem_cons_of_mem _ hy) hmem

variable {snapshot : List (ServiceInstance urls)}

theorem copySnapshot_eq_ok :
  copySnapshot urls values = .ok snapshot ↔
    (∀ value ∈ values, ∃ x, snapshotServiceInstance urls value = .ok x) ∧
      DistinctIdentities (validInstances urls values) ∧
      snapshot = sortInstances (validInstances urls values)
  := by
  rw [copySnapshot, bind_eq_ok]
  constructor
  · rintro ⟨snapshots, hcopy, h⟩
    obtain ⟨hvalid, rfl, hdistinct, _⟩ := copyServiceInstances_eq_ok.mp hcopy
    exact ⟨hvalid, hdistinct, (Except.ok.inj h).symm⟩
  · rintro ⟨hvalid, hdistinct, rfl⟩
    exact ⟨_, copyServiceInstances_eq_ok.mpr
      ⟨hvalid, rfl, hdistinct, fun _ _ => List.not_mem_nil⟩, rfl⟩

/-- A snapshot does not depend on the order of the instances. -/
theorem copySnapshot_perm {values' : List ServiceInstanceInput} (h : values.Perm values')
    (hcopy : copySnapshot urls values = .ok snapshot) :
  copySnapshot urls values' = .ok snapshot
  := by
  obtain ⟨hvalid, hdistinct, rfl⟩ := copySnapshot_eq_ok.mp hcopy
  have hperm : (validInstances urls values).Perm (validInstances urls values') := h.filterMap _
  rw [copySnapshot_eq_ok]
  refine ⟨?_, ?_, ?_⟩
  · exact fun value hvalue => hvalid value (h.mem_iff.mpr hvalue)
  · exact (hperm.map identity).nodup_iff.mp hdistinct
  · exact sortInstances_congr hdistinct hperm

/-! ### Endpoints -/

/-- An endpoint of a service instance. -/
structure ServiceEndpoint (urls : UrlParser) where
  owner : ServiceInstance urls
  url : Endpoint urls

/-- The endpoints of service instances. -/
def serviceEndpoints (instances : List (ServiceInstance urls)) : List (ServiceEndpoint urls) :=
  instances.flatMap (fun x => x.endpoints.map (fun url => ⟨x, url⟩))

/-- What identifies an endpoint: its name, its identifier, its version and its URL. -/
abbrev EndpointKey : Type := JsString ×ₗ JsString ×ₗ JsString ×ₗ JsString

def ServiceEndpoint.key (e : ServiceEndpoint urls) : EndpointKey :=
  toLex (e.owner.name.val, toLex (e.owner.id.val, toLex (e.owner.version.val, e.url.val.val)))

/-- The text that identifies an endpoint. -/
def endpointIdentity (e : ServiceEndpoint urls) : JsString :=
  JsString.joinPrefixed [e.owner.name.val, e.owner.version.val, e.owner.id.val, e.url.val.val]

theorem endpointIdentity_eq_iff {e e' : ServiceEndpoint urls} :
  endpointIdentity e = endpointIdentity e' ↔ e.key = e'.key
  := by
  rw [endpointIdentity, endpointIdentity, JsString.joinPrefixed_injective.eq_iff]
  simp only [ServiceEndpoint.key, List.cons.injEq, and_true, toLex_inj, Prod.mk.injEq]
  constructor
  · rintro ⟨hname, hversion, hid, hurl⟩
    exact ⟨hname, hid, hversion, hurl⟩
  · rintro ⟨hname, hid, hversion, hurl⟩
    exact ⟨hname, hversion, hid, hurl⟩

/-- The keys of the endpoints of instances. -/
def endpointKeys (instances : List (ServiceInstance urls)) : List EndpointKey :=
  (serviceEndpoints instances).map ServiceEndpoint.key

/-- Instances of a snapshot are ordered by their names and identifiers. -/
theorem sorted_copySnapshot (h : copySnapshot urls values = .ok snapshot) :
  snapshot.Pairwise (fun x y =>
    x.name.val < y.name.val ∨ x.name.val = y.name.val ∧ x.id.val < y.id.val)
  := by
  obtain ⟨_, hdistinct, rfl⟩ := copySnapshot_eq_ok.mp h
  have hne : (sortInstances (validInstances urls values)).Pairwise
      (fun x y => identity x ≠ identity y) := by
    rw [← List.pairwise_map (f := identity) (R := (· ≠ ·))]
    exact ((sortInstances_perm _).map identity).nodup_iff.mpr hdistinct
  refine ((sorted_sortInstances _).and hne).imp ?_
  rintro x y ⟨hle, hidentity⟩
  rw [sortKey, sortKey, Prod.Lex.toLex_le_toLex] at hle
  obtain hname | ⟨hname, hrest⟩ := hle
  · exact .inl hname
  · right
    rw [Prod.Lex.toLex_le_toLex] at hrest
    obtain hid | ⟨hid, _⟩ := hrest
    · exact ⟨hname, hid⟩
    · exact absurd (identity_eq_iff.mpr ⟨Subtype.ext hname, Subtype.ext hid⟩) hidentity

/-- The endpoints of a snapshot are sorted by their keys. -/
theorem sorted_endpointKeys (h : copySnapshot urls values = .ok snapshot) :
  (endpointKeys snapshot).Pairwise (· < ·)
  := by
  rw [endpointKeys, serviceEndpoints, List.map_flatMap, List.pairwise_flatMap]
  constructor
  · intro x _
    rw [List.map_map, List.pairwise_map]
    refine x.sorted.imp ?_
    intro u v huv
    apply Prod.Lex.toLex_lt_toLex.mpr
    exact .inr ⟨rfl, Prod.Lex.toLex_lt_toLex.mpr
      (.inr ⟨rfl, Prod.Lex.toLex_lt_toLex.mpr (.inr ⟨rfl, huv⟩)⟩)⟩
  · refine (sorted_copySnapshot h).imp ?_
    intro x y hxy k hk k' hk'
    rw [List.map_map] at hk hk'
    obtain ⟨u, _, rfl⟩ := List.mem_map.mp hk
    obtain ⟨v, _, rfl⟩ := List.mem_map.mp hk'
    simp only [Function.comp_apply, ServiceEndpoint.key, Prod.Lex.toLex_lt_toLex]
    obtain hname | ⟨hname, hid⟩ := hxy
    · exact .inl hname
    · exact .inr ⟨hname, .inl hid⟩

/-- The set of endpoints determines their order. -/
theorem endpointKeys_eq_sort (h : copySnapshot urls values = .ok snapshot) :
  endpointKeys snapshot = (endpointKeys snapshot).toFinset.sort
  := by
  have hsorted := sorted_endpointKeys h
  have hnodup : (endpointKeys snapshot).Nodup := hsorted.imp fun hlt => hlt.ne
  exact ((List.toFinset_sort (r := (· ≤ ·)) hnodup).mpr (hsorted.imp fun hlt => hlt.le)).symm

/-! ### Domains -/

/-- The name and the version of an instance. -/
abbrev ServiceTuple : Type := JsString ×ₗ JsString

def ServiceInstance.tuple (x : ServiceInstance urls) : ServiceTuple :=
  toLex (x.name.val, x.version.val)

/-- The text of the name and the version of an instance. -/
def serviceTupleIdentity (x : ServiceInstance urls) : JsString :=
  JsString.joinPrefixed [x.name.val, x.version.val]

/-- Compare names and versions. -/
def compareServiceTuples (left right : ServiceInstance urls) : Ordering :=
  (compareStoreKeys left.name right.name).then (compareStoreKeys left.version right.version)

/-- One instance for each name and version. -/
def uniqueTuples (instances : List (ServiceInstance urls)) :
    JsMap JsString (ServiceInstance urls) :=
  instances.foldl (fun unique x => unique.set (serviceTupleIdentity x) x) .empty

/-- The domain of a selection among instances. -/
def selectionDomain (instances : List (ServiceInstance urls)) : JsString :=
  JsString.joinPrefixed
    (((uniqueTuples instances).values.insertionSort
      (fun left right => (compareServiceTuples left right).isLE = true)).map serviceTupleIdentity)

/-! ### What determines a domain -/

/-- The text of a name and a version. -/
def tupleText (t : ServiceTuple) : JsString := JsString.joinPrefixed [(ofLex t).1, (ofLex t).2]

theorem tupleText_injective :
  Function.Injective tupleText
  := by
  intro t t' h
  have hlist := JsString.joinPrefixed_injective h
  simp only [List.cons.injEq, and_true] at hlist
  exact ofLex.injective (Prod.ext hlist.1 hlist.2)

/-- Instances are kept under their names and versions. -/
def WellKeyed (m : JsMap JsString (ServiceInstance urls)) : Prop :=
  ∀ e ∈ m.entries, e.1 = serviceTupleIdentity e.2

variable {m : JsMap JsString (ServiceInstance urls)}

theorem WellKeyed.set (h : WellKeyed m) (x : ServiceInstance urls) :
  WellKeyed (m.set (serviceTupleIdentity x) x)
  := by
  rintro ⟨k, y⟩ he
  have hget := JsMap.get?_eq_some.mpr he
  rw [JsMap.get?_set] at hget
  split at hget
  · rename_i hk
    rw [← Option.some.inj hget]
    exact hk
  · exact h _ (JsMap.get?_eq_some.mp hget)

theorem wellKeyed_uniqueTuples (instances : List (ServiceInstance urls)) :
  WellKeyed (uniqueTuples instances)
  := by
  have hfold : ∀ m : JsMap JsString (ServiceInstance urls), WellKeyed m →
      WellKeyed (instances.foldl (fun unique x => unique.set (serviceTupleIdentity x) x) m) := by
    induction instances with
    | nil => exact fun m h => h
    | cons x instances ih => exact fun m h => ih _ (h.set x)
  exact hfold .empty fun e he => absurd he List.not_mem_nil

/-- The names and versions of a map that keeps instances under them. -/
theorem WellKeyed.mem_tuples (h : WellKeyed m) {t : ServiceTuple} :
  t ∈ m.values.map ServiceInstance.tuple ↔ ∃ x, m.get? (tupleText t) = some x
  := by
  rw [JsMap.values, List.map_map, List.mem_map]
  constructor
  · rintro ⟨⟨k, x⟩, he, rfl⟩
    have hk : k = serviceTupleIdentity x := h _ he
    rw [hk] at he
    exact ⟨x, JsMap.get?_eq_some.mpr he⟩
  · rintro ⟨x, hx⟩
    have he := JsMap.get?_eq_some.mp hx
    exact ⟨_, he, (tupleText_injective (h _ he)).symm⟩

theorem WellKeyed.nodup (h : WellKeyed m) :
  (m.values.map ServiceInstance.tuple).Nodup
  := by
  apply List.Nodup.of_map tupleText
  have hkeys : (m.values.map ServiceInstance.tuple).map tupleText = m.entries.map Prod.fst := by
    rw [JsMap.values, List.map_map, List.map_map]
    exact List.map_congr_left fun e he => (h e he).symm
  rw [hkeys]
  exact m.nodup

theorem get?_uniqueTuples (instances : List (ServiceInstance urls)) (k : JsString) :
  (∃ x, (uniqueTuples instances).get? k = some x) ↔ k ∈ instances.map serviceTupleIdentity
  := by
  have hfold : ∀ m : JsMap JsString (ServiceInstance urls),
      (∃ x, (instances.foldl (fun unique x => unique.set (serviceTupleIdentity x) x) m).get? k =
        some x) ↔ (∃ x, m.get? k = some x) ∨ k ∈ instances.map serviceTupleIdentity := by
    induction instances with
    | nil => exact fun m => by simp
    | cons y instances ih =>
        intro m
        rw [List.foldl_cons, ih, JsMap.get?_set, List.map_cons, List.mem_cons]
        by_cases hk : k = serviceTupleIdentity y
        · simp [hk]
        · simp [hk]
  rw [uniqueTuples, hfold]
  simp

/-- The names and versions of instances. -/
def serviceTuples (instances : List (ServiceInstance urls)) : Finset ServiceTuple :=
  (instances.map ServiceInstance.tuple).toFinset

theorem isLE_compareServiceTuples (x y : ServiceInstance urls) :
  (compareServiceTuples x y).isLE = true ↔ x.tuple ≤ y.tuple
  := by
  have hcompare : compareServiceTuples x y = compare x.tuple y.tuple := by
    simp only [compareServiceTuples, compareStoreKeys_eq_compare]
    rfl
  rw [hcompare, ← Ordering.ne_gt_iff_isLE]
  exact compare_le_iff_le

/-- The text of a set of names and versions. -/
def domainText (tuples : Finset ServiceTuple) : JsString :=
  JsString.joinPrefixed (tuples.sort.map tupleText)

theorem domainText_injective :
  Function.Injective domainText
  := by
  intro s s' h
  have hsort := List.map_injective_iff.mpr tupleText_injective
    (JsString.joinPrefixed_injective h)
  rw [← Finset.sort_toFinset s (· ≤ ·), hsort, Finset.sort_toFinset]

/-- A domain is the set of the names and versions of the instances. -/
theorem selectionDomain_eq (instances : List (ServiceInstance urls)) :
  selectionDomain instances = domainText (serviceTuples instances)
  := by
  let r : ServiceInstance urls → ServiceInstance urls → Prop :=
    fun left right => (compareServiceTuples left right).isLE = true
  let sorted := (uniqueTuples instances).values.insertionSort r
  have hperm : (sorted.map ServiceInstance.tuple).Perm
      ((uniqueTuples instances).values.map ServiceInstance.tuple) :=
    (List.perm_insertionSort r _).map _
  have hnodup : (sorted.map ServiceInstance.tuple).Nodup :=
    hperm.nodup_iff.mpr (wellKeyed_uniqueTuples instances).nodup
  have hsorted : (sorted.map ServiceInstance.tuple).Pairwise (· ≤ ·) := by
    have total : Std.Total r :=
      ⟨fun x y => by
        simp only [r, isLE_compareServiceTuples]
        apply le_total⟩
    have trans : IsTrans (ServiceInstance urls) r :=
      ⟨fun x y z => by
        simp only [r, isLE_compareServiceTuples]
        apply le_trans⟩
    rw [List.pairwise_map]
    exact (List.pairwise_insertionSort r _).imp fun h => (isLE_compareServiceTuples _ _).mp h
  have htuples : (sorted.map ServiceInstance.tuple).toFinset = serviceTuples instances := by
    ext t
    rw [List.mem_toFinset, hperm.mem_iff, (wellKeyed_uniqueTuples instances).mem_tuples,
      get?_uniqueTuples, serviceTuples, List.mem_toFinset]
    constructor
    · intro h
      obtain ⟨x, hx, htext⟩ := List.mem_map.mp h
      exact List.mem_map.mpr ⟨x, hx, tupleText_injective htext⟩
    · intro h
      obtain ⟨x, hx, rfl⟩ := List.mem_map.mp h
      exact List.mem_map.mpr ⟨x, hx, rfl⟩
  rw [domainText, ← htuples, (List.toFinset_sort (r := (· ≤ ·)) hnodup).mpr hsorted, List.map_map]
  rfl

/-! ### Plain services -/

/-- A parser that accepts every text as it is. -/
def anyUrls : UrlParser where
  parse source :=
    if h : source.isWellFormed = true ∧ (true = true → source.isEmpty = false) then
      some ⟨.ofNat 1, .empty, .empty, ⟨source, h⟩⟩
    else none
  parse_href := by
    intro source url h
    split at h
    · rename_i hsource
      rw [← Option.some.inj h]
      exact dif_pos hsource
    · cases h

theorem exact_ofNat (n : ℕ) :
  (JsString.ofNat n).isWellFormed = true ∧ (true = true → (JsString.ofNat n).isEmpty = false)
  := ⟨JsString.isWellFormed_ofNat n, fun _ => JsString.isEmpty_ofNat n⟩

/-- The name of a number. -/
def nameOf (n : ℕ) : Key := ⟨.ofNat n, exact_ofNat n⟩

theorem endpoint_one :
  endpoint anyUrls (nameOf 1).val = .ok (nameOf 1)
  := rfl

theorem endpoint_two :
  endpoint anyUrls (nameOf 2).val = .ok (nameOf 2)
  := rfl

def endpointOne : Endpoint anyUrls := ⟨nameOf 1, endpoint_one⟩

def endpointTwo : Endpoint anyUrls := ⟨nameOf 2, endpoint_two⟩

theorem sorted_alone :
  SortedEndpoints [endpointOne]
  := List.pairwise_singleton _ _

theorem sorted_pair :
  SortedEndpoints [endpointOne, endpointTwo]
  := by
  rw [SortedEndpoints, SortedByKey, List.pairwise_pair]
  decide

/-- A service with one endpoint. -/
def alone (n : ℕ) : ServiceInstance anyUrls :=
  ⟨⟨.empty, exact_empty⟩, nameOf n, ⟨.empty, exact_empty⟩, ⟨[], sortedByKey_noEntries⟩,
    [endpointOne], sorted_alone⟩

/-- A service with two endpoints. -/
def pair (n : ℕ) : ServiceInstance anyUrls :=
  ⟨⟨.empty, exact_empty⟩, nameOf n, ⟨.empty, exact_empty⟩, ⟨[], sortedByKey_noEntries⟩,
    [endpointOne, endpointTwo], sorted_pair⟩

theorem copySnapshot_sole (x : ServiceInstance urls) :
  copySnapshot urls [x.toInput] = .ok [x]
  := by
  rw [copySnapshot, copyServiceInstances, snapshotServiceInstance_toInput]
  rfl

end Registry

/-! ### Names in order -/

open JsString

namespace Registry

/-! ### What the keys determine -/

/-- Endpoints of one snapshot have different identities. -/
theorem endpointIdentity_injOn {urls : UrlParser} {values : List ServiceInstanceInput}
    {snapshot : List (ServiceInstance urls)} (h : copySnapshot urls values = .ok snapshot)
    {e e' : ServiceEndpoint urls} (he : e ∈ serviceEndpoints snapshot)
    (he' : e' ∈ serviceEndpoints snapshot) (heq : endpointIdentity e = endpointIdentity e') :
  e = e'
  := by
  have hnodup : (endpointKeys snapshot).Nodup := (sorted_endpointKeys h).imp fun hlt => hlt.ne
  exact List.inj_on_of_nodup_map hnodup he he' (endpointIdentity_eq_iff.mp heq)

/-- Domains are equal exactly when the sets of names and versions are; identities of endpoints are
equal exactly when the endpoints have one name, version, identifier and URL, and so are one endpoint
in a snapshot; and code points are compared by a strict total order of all strings. -/
theorem selectionKeys_exact (urls : UrlParser) :
  (∀ instances instances' : List (ServiceInstance urls),
    selectionDomain instances = selectionDomain instances' ↔
      serviceTuples instances = serviceTuples instances') ∧
  (∀ e e' : ServiceEndpoint urls, endpointIdentity e = endpointIdentity e' ↔
    e.owner.name = e'.owner.name ∧ e.owner.version = e'.owner.version ∧ e.owner.id = e'.owner.id ∧
      e.url = e'.url) ∧
  (∀ values snapshot, copySnapshot urls values = .ok snapshot →
    ∀ e ∈ serviceEndpoints snapshot, ∀ e' ∈ serviceEndpoints snapshot,
      endpointIdentity e = endpointIdentity e' → e = e') ∧
  IsStrictTotalOrder JsString (fun left right => compareCodePoints left right < 0) ∧
  ∀ left right : JsString,
    (compareCodePoints left right < 0 ↔ left.codePoints < right.codePoints) ∧
    (0 < compareCodePoints left right ↔ right.codePoints < left.codePoints) ∧
    (compareCodePoints left right = 0 ↔ left = right)
  := by
  refine ⟨?_, ?_, fun values snapshot h e he e' he' => endpointIdentity_injOn h he he', ?_, ?_⟩
  · intro instances instances'
    rw [selectionDomain_eq, selectionDomain_eq, domainText_injective.eq_iff]
  · intro e e'
    rw [endpointIdentity_eq_iff, ServiceEndpoint.key, ServiceEndpoint.key]
    simp only [toLex_inj, Prod.mk.injEq, Subtype.ext_iff]
    constructor
    · rintro ⟨hname, hid, hversion, hurl⟩
      exact ⟨hname, hversion, hid, hurl⟩
    · rintro ⟨hname, hversion, hid, hurl⟩
      exact ⟨hname, hid, hversion, hurl⟩
  · have hlt : (fun left right => compareCodePoints left right < 0) =
        ((· < ·) : JsString → JsString → Prop) := by
      funext left right
      exact propext compareCodePoints_lt_iff
    rw [hlt]
    infer_instance
  · intro left right
    exact ⟨compareCodePoints_lt_iff, compareCodePoints_gt_iff, compareCodePoints_eq_zero_iff⟩

end Registry
