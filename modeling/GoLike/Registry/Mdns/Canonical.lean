import GoLike.Lib.JsonWriter
import GoLike.Registry.Instance

/-!
# The canonical payload of a service instance

The payload is the text of one document, the object of the parts of the instance with its
metadata as a list of pairs in the order of their keys. It determines the instance. It is joined
from the texts of its parts, and its bytes determine the instance, too.
-/

open Store

namespace Registry.Mdns

variable {urls : UrlParser}

/-- Convert metadata to pairs in the order of their keys. -/
def metadataPairs (value : Metadata) : List MetadataEntry := sortByKey Prod.fst value.entries

theorem metadataPairs_eq (value : Metadata) :
  metadataPairs value = value.entries
  := sortByKey_eq _ value.sorted

/-- The text of a logical identity. -/
def identityPreimage (x : ServiceInstance urls) : JsonText := identity x

/-- The document of a service instance. -/
def payload (x : ServiceInstance urls) : Json :=
  .object
    [(.ofString "id", .string x.id.val),
      (.ofString "name", .string x.name.val),
      (.ofString "version", .string x.version.val),
      (.ofString "metadata", .array ((metadataPairs x.metadata).map
        (fun e => .array [.string e.1.val, .string e.2.val]))),
      (.ofString "endpoints", .array (x.endpoints.map (fun e => .string e.val.val)))]

/-- The canonical text of a service instance. -/
def canonicalPayload (x : ServiceInstance urls) : JsonText := Json.stringify (payload x)

theorem payload_injective :
  Function.Injective (payload : ServiceInstance urls → Json)
  := by
  intro x y h
  obtain ⟨id, name, version, ⟨entries, hentries⟩, endpoints, hsorted⟩ := x
  obtain ⟨id', name', version', ⟨entries', hentries'⟩, endpoints', hsorted'⟩ := y
  simp only [payload, metadataPairs_eq, Json.object.injEq, List.cons.injEq, Prod.mk.injEq,
    Json.string.injEq, Json.array.injEq, true_and, and_true] at h
  obtain ⟨hid, hname, hversion, hmetadata, hendpoints⟩ := h
  have hentries : entries = entries' := by
    apply List.map_injective_iff.mpr _ hmetadata
    intro e e' he
    simp only [Json.array.injEq, List.cons.injEq, Json.string.injEq, and_true] at he
    exact Prod.ext (Subtype.ext he.1) (Subtype.ext he.2)
  have hendpoints' : endpoints = endpoints' := by
    apply List.map_injective_iff.mpr _ hendpoints
    intro e e' he
    simp only [Json.string.injEq] at he
    exact Subtype.ext (Subtype.ext he)
  obtain rfl : id = id' := Subtype.ext hid
  obtain rfl : name = name' := Subtype.ext hname
  obtain rfl : version = version' := Subtype.ext hversion
  subst hentries
  subst hendpoints'
  rfl

/-- Equal canonical payloads are those of one instance. -/
theorem canonicalPayload_injective :
  Function.Injective (canonicalPayload : ServiceInstance urls → JsonText)
  := by
  intro x y h
  simp only [canonicalPayload, Json.stringify, JsonText.mk.injEq, Option.some.injEq,
    true_and] at h
  exact payload_injective h

/-! ### The text of the payload -/

open JsString

/-- The text of a pair of metadata. -/
def pairText (e : MetadataEntry) : List UInt16 := brackets [quote e.1.val, quote e.2.val]

/-- The units of the canonical text of a service instance. -/
def canonicalUnits (x : ServiceInstance urls) : List UInt16 :=
  123 :: (ofString "\"id\":").units ++ quote x.id.val ++
    (ofString ",\"name\":").units ++ quote x.name.val ++
    (ofString ",\"version\":").units ++ quote x.version.val ++
    (ofString ",\"metadata\":").units ++ brackets ((metadataPairs x.metadata).map pairText) ++
    (ofString ",\"endpoints\":").units ++ brackets (x.endpoints.map (fun e => quote e.val.val)) ++
    [125]

/-- The canonical text of a service instance, unit by unit. -/
def canonicalText (x : ServiceInstance urls) : JsString := ⟨canonicalUnits x⟩

/-! ### The text determines the instance -/

theorem quote_ne_bracket (s : JsString) (X X' : List UInt16) :
  quote s ++ X ≠ 93 :: X'
  := by
  rintro ⟨⟩

theorem pairText_ne_bracket (e : MetadataEntry) (X X' : List UInt16) :
  pairText e ++ X ≠ 93 :: X'
  := by
  rintro ⟨⟩

theorem delimited_exact (nonEmpty : Bool) :
  Delimited (fun _ : ExactString nonEmpty => True) (fun s => quote s.val)
  := delimited_quote.comp Subtype.val_injective (fun _ _ => trivial)

theorem delimited_pairText :
  Delimited (fun _ : MetadataEntry => True) pairText
  := by
  intro e e' X X' _ _ heq
  have hstrings := delimited_brackets delimited_quote (fun s X X' _ => quote_ne_bracket s X X')
  obtain ⟨hpair, hrest⟩ := hstrings [e.1.val, e.2.val] [e'.1.val, e'.2.val] X X'
    (fun _ _ => trivial) (fun _ _ => trivial) heq
  simp only [List.cons.injEq, and_true] at hpair
  exact ⟨Prod.ext (Subtype.ext hpair.1) (Subtype.ext hpair.2), hrest⟩

theorem delimited_metadata :
  Delimited (fun l : List MetadataEntry => ∀ e ∈ l, True) (fun l => brackets (l.map pairText))
  := delimited_brackets delimited_pairText (fun e X X' _ => pairText_ne_bracket e X X')

theorem delimited_endpoints :
  Delimited (fun l : List (Endpoint urls) => ∀ e ∈ l, True)
    (fun l => brackets (l.map (fun e => quote e.val.val)))
  := by
  apply delimited_brackets
  · exact (delimited_exact true).comp Subtype.val_injective (fun _ _ => trivial)
  · intro e X X' _
    exact quote_ne_bracket e.val.val X X'

theorem canonicalUnits_injective :
  Function.Injective (canonicalUnits : ServiceInstance urls → List UInt16)
  := by
  intro x y h
  simp only [canonicalUnits, List.cons_append, List.append_assoc, List.cons.injEq, true_and,
    metadataPairs_eq] at h
  obtain ⟨hid, h⟩ := delimited_exact false _ _ _ _ trivial trivial (List.append_cancel_left h)
  obtain ⟨hname, h⟩ := delimited_exact true _ _ _ _ trivial trivial (List.append_cancel_left h)
  obtain ⟨hversion, h⟩ := delimited_exact false _ _ _ _ trivial trivial (List.append_cancel_left h)
  obtain ⟨hmetadata, h⟩ := delimited_metadata _ _ _ _ (fun _ _ => trivial) (fun _ _ => trivial)
    (List.append_cancel_left h)
  obtain ⟨hendpoints, -⟩ := delimited_endpoints _ _ _ _ (fun _ _ => trivial)
    (fun _ _ => trivial) (List.append_cancel_left h)
  obtain ⟨id, name, version, ⟨entries, hentries⟩, endpoints, hsorted⟩ := x
  obtain ⟨id', name', version', ⟨entries', hentries'⟩, endpoints', hsorted'⟩ := y
  cases hid
  cases hname
  cases hversion
  cases hmetadata
  cases hendpoints
  rfl

theorem canonicalText_injective :
  Function.Injective (canonicalText : ServiceInstance urls → JsString)
  := by
  intro x y h
  exact canonicalUnits_injective (congrArg JsString.units h)

/-! ### Bytes -/

theorem isText_canonicalUnits (x : ServiceInstance urls) :
  IsText (canonicalUnits x)
  := by
  have hopen : IsText [123] := isText_unit (by decide)
  have hclose : IsText [125] := isText_unit (by decide)
  have hmetadata : IsText (brackets ((metadataPairs x.metadata).map pairText)) := by
    apply isText_brackets
    intro element helement
    obtain ⟨e, -, rfl⟩ := List.mem_map.mp helement
    apply isText_brackets
    intro part hpart
    simp only [List.mem_cons, List.not_mem_nil, or_false] at hpart
    obtain rfl | rfl := hpart
    · exact isText_quote _
    · exact isText_quote _
  have hendpoints : IsText (brackets (x.endpoints.map (fun e => quote e.val.val))) := by
    apply isText_brackets
    intro element helement
    obtain ⟨e, -, rfl⟩ := List.mem_map.mp helement
    exact isText_quote _
  exact ((((((((((hopen.append (isText_ofString _)).append (isText_quote _)).append
    (isText_ofString _)).append (isText_quote _)).append (isText_ofString _)).append
    (isText_quote _)).append (isText_ofString _)).append hmetadata).append
    (isText_ofString _)).append hendpoints).append hclose

/-- The bytes of the canonical payload. -/
def canonicalBytes (x : ServiceInstance urls) : List UInt8 := (canonicalText x).encodeUtf8

theorem decodeUtf8_canonicalBytes (x : ServiceInstance urls) :
  decodeUtf8 (canonicalBytes x) = some (canonicalText x)
  := by
  apply decodeUtf8_of_isText (isText_canonicalUnits x)
  rintro ⟨⟩

theorem canonicalBytes_injective :
  Function.Injective (canonicalBytes : ServiceInstance urls → List UInt8)
  := by
  intro x y h
  have hdecode := decodeUtf8_canonicalBytes x
  rw [h, decodeUtf8_canonicalBytes] at hdecode
  exact canonicalText_injective (Option.some.inj hdecode).symm

end Registry.Mdns
