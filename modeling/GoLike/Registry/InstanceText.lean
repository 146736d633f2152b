import GoLike.Lib.JsonWriter
import GoLike.Lib.OwnOrder
import GoLike.Registry.Document

/-!
# The text of a service instance

The text that is printed for a snapshot of a service instance, behind the marker of the wire
format. Metadata is printed in the order in which an object lists its properties, which is not
the order of the snapshot; the text determines the instance, and what is read from it is the
snapshot again.
-/

open Store JsString OwnOrder

namespace Registry

variable {urls : UrlParser}

/-! ### Metadata -/

/-- The entries of metadata, in the order in which the object lists them. -/
def ownMetadata (m : Metadata) : List MetadataEntry :=
  (ownOrder (m.entries.map (fun e => (e.1.val, e)))).map Prod.snd

theorem ownMetadata_perm (m : Metadata) :
  (ownMetadata m).Perm m.entries
  := by
  have hperm := (ownOrder_perm (m.entries.map (fun e => (e.1.val, e)))).map Prod.snd
  rw [List.map_map] at hperm
  have hsame : m.entries.map (Prod.snd ∘ fun e => (e.1.val, e)) = m.entries := List.map_id _
  rw [hsame] at hperm
  exact hperm

/-- The entries determine the metadata. -/
theorem ownMetadata_injective :
  Function.Injective ownMetadata
  := by
  intro m m' h
  obtain ⟨entries, hsorted⟩ := m
  obtain ⟨entries', hsorted'⟩ := m'
  have hperm : entries.Perm entries' := by
    apply (ownMetadata_perm ⟨entries, hsorted⟩).symm.trans
    rw [h]
    exact ownMetadata_perm ⟨entries', hsorted'⟩
  have heq : entries = entries' := SortedByKey.eq_of_mem_iff Prod.fst hsorted hsorted'
    (fun _ => hperm.mem_iff)
  subst heq
  rfl

/-- The object of metadata. -/
def ownObject (m : Metadata) : Json :=
  .object ((ownMetadata m).map (fun e => (e.1.val, .string e.2.val)))

/-- Metadata is read back from its object. -/
theorem metadata_ownObject (m : Metadata) :
  ∃ object, metadataObject (ownObject m) = some object ∧ metadata object = .ok m
  := by
  have hperm := ownMetadata_perm m
  have hkeys : ((m.entries.map (fun e => (⟨e.1.val, e.2.val⟩ : Σ _ : JsString, JsString))).map
      Sigma.fst).Nodup := m.toObject.nodupKeys
  have hnodup : (((ownMetadata m).map
      (fun e => (⟨e.1.val, e.2.val⟩ : Σ _ : JsString, JsString))).map Sigma.fst).Nodup :=
    ((hperm.map _).map _).nodup_iff.mpr hkeys
  let object : StringRecord :=
    ⟨(ownMetadata m).map (fun e => (⟨e.1.val, e.2.val⟩ : Σ _ : JsString, JsString)), by
      rw [List.NodupKeys, List.keys]
      exact hnodup⟩
  refine ⟨object, ?_, ?_⟩
  · rw [ownObject]
    simp only [metadataObject, metadataEntries_map, Option.bind_eq_bind, Option.bind_some]
    rw [dif_pos hnodup]
  · rw [metadata]
    split
    case h_1 e h =>
      rw [copyEntries_map] at h
      cases h
    case h_2 copied h =>
      have hcopied : copied = ownMetadata m := by
        rw [copyEntries_map] at h
        cases h
        rfl
      subst hcopied
      congr 1
      obtain ⟨entries, hsorted⟩ := m
      simp only [Metadata.mk.injEq]
      apply SortedByKey.eq_of_mem_iff Prod.fst _ hsorted
      · intro e
        rw [mem_sortByKey]
        exact hperm.mem_iff
      · exact sortedByKey_sortByKey _ (keys_nodup_of_copyEntries h)

/-! ### Documents -/

/-- The object of a service instance. -/
def instanceObject (x : ServiceInstance urls) : Json :=
  .object
    [(name "id", .string x.id.val), (name "name", .string x.name.val),
      (name "version", .string x.version.val), (name "metadata", ownObject x.metadata),
      (name "endpoints", .array (x.endpoints.map (fun e => .string e.val.val)))]

/-- What is read from the object is the snapshot. -/
theorem snapshot_instanceObject (x : ServiceInstance urls) :
  ∃ input, instanceInput (instanceObject x) = some input ∧
    snapshotServiceInstance urls input = .ok x
  := by
  obtain ⟨object, hobject, hmetadata⟩ := metadata_ownObject x.metadata
  have hendpoints : strings (x.endpoints.map (fun e => .string e.val.val)) =
      some (x.endpoints.map (fun e => e.val.val)) := by
    rw [← strings_map, List.map_map]
    rfl
  have hproperties : instanceInput (instanceObject x) = (do
      let metadata ← metadataObject (ownObject x.metadata)
      let endpoints ← strings (x.endpoints.map (fun e => .string e.val.val))
      some ⟨x.id.val, x.name.val, x.version.val, metadata, endpoints⟩) := rfl
  refine ⟨⟨x.id.val, x.name.val, x.version.val, object, x.endpoints.map (fun e => e.val.val)⟩,
    ?_, ?_⟩
  · rw [hproperties, hobject, hendpoints]
    rfl
  · simp only [snapshotServiceInstance, mapM_endpointOf, text_val, hmetadata, bind, Except.bind,
      sortedEndpoints_eq x.sorted]

/-- The document of a service instance behind a marker. -/
def markedDocument (marker : JsString) (x : ServiceInstance urls) : Json :=
  .array [.string marker, instanceObject x]

/-! ### Texts -/

/-- The text of a property whose value is a string. -/
def propertyUnits (e : MetadataEntry) : List UInt16 := quote e.1.val ++ 58 :: quote e.2.val

/-- The text of a service instance. -/
def instanceUnits (x : ServiceInstance urls) : List UInt16 :=
  123 :: (ofString "\"id\":").units ++ quote x.id.val ++
    (ofString ",\"name\":").units ++ quote x.name.val ++
    (ofString ",\"version\":").units ++ quote x.version.val ++
    (ofString ",\"metadata\":").units ++ braces ((ownMetadata x.metadata).map propertyUnits) ++
    (ofString ",\"endpoints\":").units ++ brackets (x.endpoints.map (fun e => quote e.val.val)) ++
    [125]

/-- The text of a service instance behind a marker. -/
def markedText (marker : JsString) (x : ServiceInstance urls) : JsString :=
  ⟨91 :: quote marker ++ 44 :: instanceUnits x ++ [93]⟩

theorem quote_ne (s : JsString) {stop : UInt16} (h : stop ≠ 34) (X X' : List UInt16) :
  quote s ++ X ≠ stop :: X'
  := by
  intro heq
  rw [quote, List.cons_append, List.cons_append, List.cons.injEq] at heq
  exact h heq.1.symm

theorem delimited_propertyUnits :
  Delimited (fun _ : MetadataEntry => True) propertyUnits
  := by
  intro e e' X X' _ _ heq
  simp only [propertyUnits, List.append_assoc, List.cons_append] at heq
  obtain ⟨hkey, heq⟩ := delimited_quote _ _ _ _ trivial trivial heq
  rw [List.cons.injEq] at heq
  obtain ⟨hvalue, hrest⟩ := delimited_quote _ _ _ _ trivial trivial heq.2
  exact ⟨Prod.ext (Subtype.ext hkey) (Subtype.ext hvalue), hrest⟩

theorem delimited_ownMetadata :
  Delimited (fun l : List MetadataEntry => ∀ e ∈ l, True) (fun l => braces (l.map propertyUnits))
  := by
  apply delimited_enclosed delimited_propertyUnits (by decide)
  intro e X X' _
  rw [propertyUnits, List.append_assoc]
  exact quote_ne _ (by decide) _ _

theorem delimited_endpointTexts :
  Delimited (fun l : List (Endpoint urls) => ∀ e ∈ l, True)
    (fun l => brackets (l.map (fun e => quote e.val.val)))
  := by
  apply delimited_brackets
  · apply delimited_quote.comp _ (fun _ _ => trivial)
    intro e e' h
    exact Subtype.ext (Subtype.ext h)
  · intro e X X' _
    exact quote_ne _ (by decide) X X'

/-- The text determines the instance. -/
theorem instanceUnits_injective :
  Function.Injective (instanceUnits : ServiceInstance urls → List UInt16)
  := by
  have hexact : ∀ nonEmpty, Delimited (fun _ : ExactString nonEmpty => True)
      (fun s => quote s.val) := fun nonEmpty =>
    delimited_quote.comp Subtype.val_injective (fun _ _ => trivial)
  intro x y h
  simp only [instanceUnits, List.cons_append, List.append_assoc, List.cons.injEq, true_and] at h
  obtain ⟨hid, h⟩ := hexact false _ _ _ _ trivial trivial (List.append_cancel_left h)
  obtain ⟨hname, h⟩ := hexact true _ _ _ _ trivial trivial (List.append_cancel_left h)
  obtain ⟨hversion, h⟩ := hexact false _ _ _ _ trivial trivial (List.append_cancel_left h)
  obtain ⟨hmetadata, h⟩ := delimited_ownMetadata _ _ _ _ (fun _ _ => trivial)
    (fun _ _ => trivial) (List.append_cancel_left h)
  obtain ⟨hendpoints, -⟩ := delimited_endpointTexts _ _ _ _ (fun _ _ => trivial)
    (fun _ _ => trivial) (List.append_cancel_left h)
  obtain ⟨id, name, version, metadata, endpoints, hsorted⟩ := x
  obtain ⟨id', name', version', metadata', endpoints', hsorted'⟩ := y
  cases hid
  cases hname
  cases hversion
  cases ownMetadata_injective hmetadata
  cases hendpoints
  rfl

theorem markedText_injective (marker : JsString) :
  Function.Injective (markedText marker : ServiceInstance urls → JsString)
  := by
  intro x y h
  simp only [markedText, JsString.mk.injEq, List.cons_append, List.cons.injEq, true_and] at h
  rw [List.append_assoc, List.append_assoc] at h
  have hunits := List.append_cancel_left h
  simp only [List.cons_append, List.cons.injEq, true_and] at hunits
  exact instanceUnits_injective (List.append_cancel_right hunits)

/-! ### Bytes -/

theorem isText_instanceUnits (x : ServiceInstance urls) :
  IsText (instanceUnits x)
  := by
  have hopen : IsText [123] := isText_unit (by decide)
  have hclose : IsText [125] := isText_unit (by decide)
  have hcolon : IsText [58] := isText_unit (by decide)
  have hmetadata : IsText (braces ((ownMetadata x.metadata).map propertyUnits)) := by
    apply isText_enclosed (by decide) (by decide)
    intro element helement
    obtain ⟨e, -, rfl⟩ := List.mem_map.mp helement
    exact (isText_quote _).append (hcolon.append (isText_quote _))
  have hendpoints : IsText (brackets (x.endpoints.map (fun e => quote e.val.val))) := by
    apply isText_brackets
    intro element helement
    obtain ⟨e, -, rfl⟩ := List.mem_map.mp helement
    exact isText_quote _
  exact ((((((((((hopen.append (isText_ofString _)).append (isText_quote _)).append
    (isText_ofString _)).append (isText_quote _)).append (isText_ofString _)).append
    (isText_quote _)).append (isText_ofString _)).append hmetadata).append
    (isText_ofString _)).append hendpoints).append hclose

/-- The text is read back from its bytes. -/
theorem decodeUtf8_markedText (marker : JsString) (x : ServiceInstance urls) :
  decodeUtf8 (markedText marker x).encodeUtf8 = some (markedText marker x)
  := by
  have hopen : IsText [91] := isText_unit (by decide)
  have hcomma : IsText [44] := isText_unit (by decide)
  have hclose : IsText [93] := isText_unit (by decide)
  apply decodeUtf8_of_isText
  · exact ((hopen.append (isText_quote marker)).append
      (hcomma.append (isText_instanceUnits x))).append hclose
  · rintro ⟨⟩

/-! ### Reading -/

/-- A reader of JSON texts, which reads the texts of service instances behind a marker. -/
structure InstanceReader (urls : UrlParser) (marker : JsString) where
  /-- `none` when a text is not JSON. -/
  parse : JsString → Option Json
  parse_markedText : ∀ x : ServiceInstance urls,
    parse (markedText marker x) = some (markedDocument marker x)

variable (urls) in
open Classical in
/-- A reader of these texts only. -/
noncomputable def markedReader (marker : JsString) : InstanceReader urls marker where
  parse text :=
    if h : ∃ x : ServiceInstance urls, markedText marker x = text then
      some (markedDocument marker h.choose)
    else none
  parse_markedText := by
    intro x
    have h : ∃ y : ServiceInstance urls, markedText marker y = markedText marker x := ⟨x, rfl⟩
    rw [dif_pos h, markedText_injective marker h.choose_spec]

end Registry
