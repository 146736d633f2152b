import GoLike.Lib.JsMap
import GoLike.Registry.Instance
import GoLike.Store.Document

/-!
# Service instances as JSON documents

The providers that keep service instances as JSON texts print a snapshot as one object. A
document is read back as an instance that is validated again. A provider may find several records
of one identity. They are taken as one logical record as long as they have the same content.
-/

open Store

namespace Registry

variable {urls : UrlParser}

/-- The document of a service instance. -/
def instanceDocument (x : ServiceInstance urls) : Json :=
  .object
    [(name "id", .string x.id.val), (name "name", .string x.name.val),
      (name "version", .string x.version.val), (name "metadata", metadataDocument x.metadata),
      (name "endpoints", .array (x.endpoints.map (fun e => .string e.val.val)))]

/-- The strings among the elements of an array; `none` when an element is not a string. -/
def strings : List Json → Option (List JsString)
  | [] => some []
  | element :: rest => do
      let s ← element.asString
      let others ← strings rest
      some (s :: others)

theorem strings_map (l : List JsString) :
  strings (l.map Json.string) = some l
  := by
  induction l with
  | nil => rfl
  | cons s l ih => simp [strings, Json.asString, ih]

/-- The document has the fields of an instance. -/
def instanceCarrier : Json → Bool
  | .object properties =>
      ((Json.property properties (name "id")).bind Json.asString).isSome &&
      ((Json.property properties (name "name")).bind Json.asString).isSome &&
      ((Json.property properties (name "version")).bind Json.asString).isSome &&
      (match Json.property properties (name "metadata") with
        | some (.object _) => true
        | _ => false) &&
      (match Json.property properties (name "endpoints") with
        | some (.array _) => true
        | _ => false)
  | _ => false

/-- The instance that a document carries; `none` when one of its metadata and endpoints is
not a well-formed string. -/
def instanceInput : Json → Option ServiceInstanceInput
  | .object properties => do
      let id ← (Json.property properties (name "id")).bind Json.asString
      let serviceName ← (Json.property properties (name "name")).bind Json.asString
      let version ← (Json.property properties (name "version")).bind Json.asString
      let metadata ← (Json.property properties (name "metadata")).bind metadataObject
      let endpoints ← match Json.property properties (name "endpoints") with
        | some (.array elements) => strings elements
        | _ => none
      some ⟨id, serviceName, version, metadata, endpoints⟩
  | _ => none

@[simp]
theorem instanceCarrier_instanceDocument (x : ServiceInstance urls) :
  instanceCarrier (instanceDocument x) = true
  := rfl

@[simp]
theorem instanceInput_instanceDocument (x : ServiceInstance urls) :
  instanceInput (instanceDocument x) = some x.toInput
  := by
  have hendpoints : strings (x.endpoints.map (fun e => .string e.val.val)) =
      some (x.endpoints.map (fun e => e.val.val)) := by
    rw [← strings_map, List.map_map]
    rfl
  have hproperties : instanceInput (instanceDocument x) = (do
      let metadata ← metadataObject (metadataDocument x.metadata)
      let endpoints ← strings (x.endpoints.map (fun e => .string e.val.val))
      some ⟨x.id.val, x.name.val, x.version.val, metadata, endpoints⟩) := rfl
  rw [hproperties, metadataObject_encode, hendpoints]
  rfl

/-- The document determines the instance. -/
theorem instanceDocument_injective :
  Function.Injective (instanceDocument : ServiceInstance urls → Json)
  := by
  intro x y h
  have hinput : some x.toInput = some y.toInput := by
    rw [← instanceInput_instanceDocument, h, instanceInput_instanceDocument]
  have hsnapshot := snapshotServiceInstance_toInput x
  rw [Option.some.inj hinput, snapshotServiceInstance_toInput] at hsnapshot
  cases hsnapshot
  rfl

/-- Compare two snapshots by their texts. -/
def sameSnapshot (left right : List (ServiceInstance urls)) : Bool :=
  Json.stringify (.array (left.map instanceDocument)) =
    Json.stringify (.array (right.map instanceDocument))

@[simp]
theorem sameSnapshot_iff {left right : List (ServiceInstance urls)} :
  sameSnapshot left right = true ↔ left = right
  := by
  simp only [sameSnapshot, Json.stringify, decide_eq_true_eq, JsonText.mk.injEq,
    Option.some.injEq, Json.array.injEq, true_and]
  exact (List.map_injective_iff.mpr instanceDocument_injective).eq_iff

/-! ### Logical records -/

variable {ρ : Type}

/-- Collect the first record of each identity; a record of other content is a conflict. -/
def collectLogical (identity content : ρ → JsString) (conflict : String) :
    List ρ → JsMap JsString ρ → Except RegistryError (JsMap JsString ρ)
  | [], logical => .ok logical
  | record :: rest, logical =>
      match logical.get? (identity record) with
      | none =>
          collectLogical identity content conflict rest (logical.set (identity record) record)
      | some previous =>
          if content previous ≠ content record then .error (.protocol conflict)
          else collectLogical identity content conflict rest logical

end Registry
