import GoLike.Config.EnvTree
import GoLike.Config.Placeholders
import GoLike.Lib.Fallible
import GoLike.Lib.OwnObject

/-!
# Source documents merged in order

Objects merge property by property, and every other value replaces what is there as a whole. The
output is an ordinary object, at which a name may find what the object inherits. An admitted
document has no name that finds an object there, so that what a later document mentions overrides
what the earlier ones have at this path, and the rest of them stays.
-/

namespace Config

open JsString OwnOrder

/-- The value is an object. -/
def isConfigObject : ConfigValue → Bool
  | .object _ => true
  | _ => false

/-! ### Ordinary objects -/

/-- What a name finds at an ordinary object. -/
inductive Found where
  | undefined
  | own (value : ConfigValue)
  /-- A function that is inherited. -/
  | method
  /-- The prototype of ordinary objects, an object without enumerable properties. -/
  | prototype

/-- The names of the functions that an ordinary object inherits. -/
def methodNames : List JsString :=
  ["constructor", "hasOwnProperty", "isPrototypeOf", "propertyIsEnumerable", "toLocaleString",
    "toString", "valueOf", "__defineGetter__", "__defineSetter__", "__lookupGetter__",
    "__lookupSetter__"].map ofString

/-- Read a name of an ordinary object. -/
def read (output : ConfigObject) (key : JsString) : Found :=
  match Json.property output key with
  | some value => .own value
  | none =>
      if key = ofString "__proto__" then .prototype
      else if key ∈ methodNames then .method
      else .undefined

/-- The entries of what is found, if it is a configuration object. -/
def Found.entries? : Found → Option ConfigObject
  | .own (.object properties) => some properties
  | .prototype => some []
  | _ => none

/-- Write a name of an ordinary object. The accessor of the prototype makes no property. -/
def write (output : ConfigObject) (key : JsString) (value : ConfigValue) : ConfigObject :=
  if key = ofString "__proto__" then output else ownOrder (JsMap.put key value output)

/-! ### The merge -/

/-- Copy all keys of the left side. -/
def copyMissing (path : List JsString) (output : ConfigObject) :
    ConfigObject → Except TypeError ConfigObject
  | [] => .ok output
  | (key, incoming) :: entries => do
      let copy ← cloneValue (path ++ [key]) (ofValue incoming)
      copyMissing path (write output key copy) entries

mutual

/-- Override the output by the entries of the right side. -/
def mergeEntries (path : List JsString) (output : ConfigObject) :
    ConfigObject → Except TypeError ConfigObject
  | [] => .ok output
  | (key, incoming) :: entries => do
      let merged ← mergeEntry (path ++ [key]) (read output key) incoming
      mergeEntries path (write output key merged) entries
  termination_by structural entries => entries

/-- The value of an entry over what its key finds. -/
def mergeEntry (path : List JsString) (current : Found) :
    ConfigValue → Except TypeError ConfigValue
  | .object incoming =>
      match current.entries? with
      | some entries => do
          let output ← copyMissing path [] entries
          (mergeEntries path output incoming).map .object
      | none => cloneValue path (ofValue (.object incoming))
  | .null => cloneValue path (ofValue .null)
  | .bool b => cloneValue path (ofValue (.bool b))
  | .number x => cloneValue path (ofValue (.number x))
  | .string s => cloneValue path (ofValue (.string s))
  | .array elements => cloneValue path (ofValue (.array elements))
  termination_by structural incoming => incoming

end

/-- Merge two objects, replacing every value that is not an object as a complete unit. -/
def mergeObjectPair (left right : ConfigObject) (path : List JsString) :
    Except TypeError ConfigObject := do
  let output ← copyMissing path [] left
  mergeEntries path output right

/-- Merge documents in order into an independent object. -/
def mergeObjects (values : List ConfigObject) : Except TypeError ConfigObject :=
  values.foldlM (fun result value => mergeObjectPair result value []) []

/-- Two objects at a key are merged as a pair. -/
theorem mergeEntry_object (path : List JsString) {current : Found} {entries : ConfigObject}
    (h : current.entries? = some entries) (incoming : ConfigObject) :
  mergeEntry path current (.object incoming) =
    (mergeObjectPair entries incoming path).map .object
  := by
  rw [mergeEntry, h, mergeObjectPair]
  dsimp only
  cases copyMissing path [] entries with
  | error | ok => rfl

/-! ### Admitted documents -/

/-- The value is what a validated copy yields: numbers are finite, names are distinct, safe and in
the order of an object. -/
inductive Admitted : ConfigValue → Prop where
  | null : Admitted .null
  | bool (b : Bool) : Admitted (.bool b)
  | string (s : JsString) : Admitted (.string s)
  | number {x : JsNumber} (finite : x.toRat?.isSome = true) : Admitted (.number x)
  | array {elements : List ConfigValue} (values : ∀ value ∈ elements, Admitted value) :
      Admitted (.array elements)
  | object {properties : ConfigObject} (listed : Listed properties)
      (safe : ∀ p ∈ properties, isUnsafeKey p.1 = false)
      (values : ∀ p ∈ properties, Admitted p.2) : Admitted (.object properties)

/-- An admitted document. -/
structure Document where
  properties : ConfigObject
  admitted : Admitted (.object properties)

/-- The document as a value. -/
def Document.value (document : Document) : ConfigValue := .object document.properties

/-- A value of the runtime whose objects list their names as objects do. -/
inductive Unknown.Proper : Unknown → Prop where
  | null : Proper .null
  | boolean (b : Bool) : Proper (.boolean b)
  | number (x : JsNumber) : Proper (.number x)
  | string (s : JsString) : Proper (.string s)
  | other : Proper .other
  | array {symbols : Bool} {names : ℕ} {entries : List (Option (Bool × Unknown))}
      (values : ∀ enumerable value, some (enumerable, value) ∈ entries → Proper value) :
      Proper (.array symbols names entries)
  | object {symbols ordinary : Bool} {properties : List (JsString × Option (Bool × Unknown))}
      (listed : Listed properties)
      (values : ∀ key enumerable value, (key, some (enumerable, value)) ∈ properties →
        Proper value) :
      Proper (.object symbols ordinary properties)

mutual

/-- What a validated copy yields is admitted. -/
theorem admitted_of_cloneValue : ∀ (value : Unknown) (path : List JsString)
    {copy : ConfigValue}, value.Proper → cloneValue path value = .ok copy → Admitted copy
  | .null, _, _, _, h => by
      cases h
      exact .null
  | .boolean b, _, _, _, h => by
      cases h
      exact .bool b
  | .string s, _, _, _, h => by
      cases h
      exact .string s
  | .number x, _, _, _, h => by
      rw [cloneValue] at h
      split at h
      case isTrue hfinite =>
        cases h
        exact .number hfinite
      case isFalse => cases h
  | .other, _, _, _, h => by cases h
  | .array symbols names entries, path, _, hproper, h => by
      cases hproper with
      | array values =>
          rw [cloneValue] at h
          split at h
          case isTrue => cases h
          case isFalse =>
            split at h
            case isTrue => cases h
            case isFalse =>
              obtain ⟨copies, hcopies, heq⟩ := Except.map_eq_ok_iff.1 h
              cases heq
              exact .array (admitted_of_cloneArray entries path 0 values hcopies)
  | .object symbols ordinary properties, path, _, hproper, h => by
      cases hproper with
      | object listed values =>
          rw [cloneValue] at h
          split at h
          case isTrue => cases h
          case isFalse =>
            split at h
            case isTrue => cases h
            case isFalse =>
              obtain ⟨copies, hcopies, heq⟩ := Except.map_eq_ok_iff.1 h
              cases heq
              obtain ⟨hnames, hcopies⟩ := admitted_of_cloneObject properties path values hcopies
              apply Admitted.object
              case listed =>
                apply listed.sublist
                rw [hnames]
              case safe => exact fun p hp => (hcopies p hp).1
              case values => exact fun p hp => (hcopies p hp).2

theorem admitted_of_cloneArray : ∀ (entries : List (Option (Bool × Unknown)))
    (path : List JsString) (index : ℕ) {copies : List ConfigValue},
    (∀ enumerable value, some (enumerable, value) ∈ entries → value.Proper) →
    cloneArray path index entries = .ok copies → ∀ copy ∈ copies, Admitted copy
  | [], _, _, _, _, h => by
      cases h
      exact List.forall_mem_nil _
  | none :: _, _, _, _, _, h => by cases h
  | some (enumerable, value) :: entries, path, index, _, hproper, h => by
      rw [cloneArray] at h
      obtain ⟨copy, hcopy, h⟩ := Except.bind_eq_ok_iff.1 h
      obtain ⟨copies, hcopies, heq⟩ := Except.bind_eq_ok_iff.1 h
      cases heq
      have hvalue := admitted_of_cloneValue value _ (hproper _ _ List.mem_cons_self) hcopy
      have hvalues := admitted_of_cloneArray entries path (index + 1)
        (fun enumerable' value' h' => hproper enumerable' value' (List.mem_cons_of_mem _ h'))
        hcopies
      exact List.forall_mem_cons.2 ⟨hvalue, hvalues⟩

theorem admitted_of_cloneObject : ∀ (properties : List (JsString × Option (Bool × Unknown)))
    (path : List JsString) {copies : ConfigObject},
    (∀ key enumerable value, (key, some (enumerable, value)) ∈ properties → value.Proper) →
    cloneObject path properties = .ok copies →
    copies.map Prod.fst = properties.map Prod.fst ∧
      ∀ p ∈ copies, isUnsafeKey p.1 = false ∧ Admitted p.2
  | [], _, _, _, h => by
      cases h
      exact ⟨rfl, List.forall_mem_nil _⟩
  | (key, none) :: _, _, _, _, h => by
      rw [cloneObject] at h
      split at h
      case isTrue => cases h
      case isFalse => cases h
  | (key, some (enumerable, value)) :: properties, path, _, hproper, h => by
      rw [cloneObject] at h
      split at h
      case isTrue => cases h
      case isFalse hsafe =>
        obtain ⟨copy, hcopy, h⟩ := Except.bind_eq_ok_iff.1 h
        obtain ⟨copies, hcopies, heq⟩ := Except.bind_eq_ok_iff.1 h
        cases heq
        have hvalue := admitted_of_cloneValue value _ (hproper _ _ _ List.mem_cons_self) hcopy
        obtain ⟨hnames, hvalues⟩ := admitted_of_cloneObject properties path
          (fun key' enumerable' value' h' =>
            hproper key' enumerable' value' (List.mem_cons_of_mem _ h')) hcopies
        constructor
        · rw [List.map_cons, List.map_cons, hnames]
        · exact List.forall_mem_cons.2 ⟨⟨eq_false_of_ne_true hsafe, hvalue⟩, hvalues⟩

end

theorem areAdmitted_iff (values : List ConfigValue) :
  areAdmitted values = true ↔ ∀ value ∈ values, isAdmitted value = true
  := by
  induction values with
  | nil => simp [areAdmitted]
  | cons value values ih => rw [areAdmitted, Bool.and_eq_true, ih, List.forall_mem_cons]

namespace Admitted

variable {value : ConfigValue}

theorem isAdmitted (h : Admitted value) :
  Config.isAdmitted value = true
  := by
  induction h with
  | null | bool | string => rfl
  | number finite =>
      rw [Config.isAdmitted]
      exact finite
  | array values ih =>
      rw [Config.isAdmitted, areAdmitted_iff]
      exact ih
  | object listed safe values ih =>
      rw [Config.isAdmitted, haveAdmitted_iff]
      exact fun p hp => ⟨safe p hp, ih p hp⟩

/-- The copy of an admitted value is this value. -/
theorem cloneValue (h : Admitted value) (path : List JsString) :
  Config.cloneValue path (ofValue value) = .ok value
  := cloneValue_ofValue value path h.isAdmitted

variable {properties : ConfigObject}

theorem listed (h : Admitted (.object properties)) :
  Listed properties
  := by
  cases h with
  | object listed safe values => exact listed

theorem nil : Admitted (.object [])
  := .object Listed.nil (List.forall_mem_nil _) (List.forall_mem_nil _)

variable {key : JsString}

/-- An admitted object whose first property is taken off. -/
theorem of_cons (h : Admitted (.object ((key, value) :: properties))) :
  isUnsafeKey key = false ∧ Admitted value ∧ Admitted (.object properties)
  := by
  cases h with
  | object listed safe values =>
      obtain ⟨hkey, hsafe⟩ := List.forall_mem_cons.1 safe
      obtain ⟨hvalue, hvalues⟩ := List.forall_mem_cons.1 values
      have hsublist : (properties.map Prod.fst).Sublist
          (((key, value) :: properties).map Prod.fst) := List.sublist_cons_self _ _
      exact ⟨hkey, hvalue, .object (listed.sublist hsublist) hsafe hvalues⟩

/-- The value of a name of an admitted object. -/
theorem property (h : Admitted (.object properties))
    (hvalue : Json.property properties key = some value) :
  Admitted value
  := by
  cases h with
  | object listed safe values =>
      rw [property_eq_lookup, JsMap.lookup_eq_some listed.nodup] at hvalue
      exact values _ hvalue

/-- A value that is selected in an admitted value. -/
theorem selectValue (h : Admitted value) {path : List JsString} {selected : ConfigValue}
    (hselected : Config.selectValue value path = some selected) :
  Admitted selected
  := by
  induction path generalizing value with
  | nil =>
      rw [Config.selectValue] at hselected
      cases hselected
      exact h
  | cons segment path ih =>
      cases value with
      | object properties =>
          rw [Config.selectValue, Option.bind_eq_some_iff] at hselected
          obtain ⟨next, hnext, hselected⟩ := hselected
          exact ih (h.property hnext) hselected
      | _ => cases hselected

/-- An admitted value that is set at a safe name. -/
theorem put (h : Admitted (.object properties)) (hkey : isUnsafeKey key = false)
    (hvalue : Admitted value) :
  Admitted (.object (ownOrder (JsMap.put key value properties)))
  := by
  cases h with
  | object listed safe values =>
      have hput : ∀ p ∈ ownOrder (JsMap.put key value properties),
          p = (key, value) ∨ p ∈ properties := by
        intro p hp
        obtain ⟨key', value'⟩ := p
        rw [mem_ownOrder, ← JsMap.lookup_eq_some (Listed.nodup_put listed.nodup key value),
          JsMap.lookup_put] at hp
        split at hp
        case isTrue heq =>
          cases hp
          exact .inl (by rw [heq])
        case isFalse => exact .inr ((JsMap.lookup_eq_some listed.nodup).1 hp)
      apply Admitted.object
      case listed => exact listed.put key value
      case safe =>
        intro p hp
        obtain rfl | hp := hput p hp
        · exact hkey
        · exact safe p hp
      case values =>
        intro p hp
        obtain rfl | hp := hput p hp
        · exact hvalue
        · exact values p hp

end Admitted

/-! ### One object over another -/

mutual

/-- The left object with the entries of the right one over it. -/
def overlay (left : ConfigObject) : ConfigObject → ConfigObject
  | [] => left
  | (key, incoming) :: entries =>
      overlay (ownOrder (JsMap.put key (overlayValue (Json.property left key) incoming) left))
        entries
  termination_by structural entries => entries

/-- A value over what stands at its place. -/
def overlayValue (current : Option ConfigValue) : ConfigValue → ConfigValue
  | .object incoming =>
      match current with
      | some (.object properties) => .object (overlay properties incoming)
      | _ => .object incoming
  | .null => .null
  | .bool b => .bool b
  | .number x => .number x
  | .string s => .string s
  | .array elements => .array elements
  termination_by structural incoming => incoming

end

/-- Unless both are objects, a value replaces what stands at its place. -/
theorem overlayValue_replaces {current : Option ConfigValue} {incoming : ConfigValue}
    (h : ¬ ∃ left right, current = some (.object left) ∧ incoming = .object right) :
  overlayValue current incoming = incoming
  := by
  cases incoming with
  | object entries =>
      cases current with
      | none => rfl
      | some value =>
          cases value with
          | object properties => exact absurd ⟨properties, entries, rfl, rfl⟩ h
          | _ => rfl
  | _ => rfl

variable {properties : ConfigObject} {key : JsString}

theorem property_eq_none (h : key ∉ properties.map Prod.fst) :
  Json.property properties key = none
  := by
  rw [Json.property, List.find?_eq_none.2]
  · rfl
  · intro p hp hkey
    rw [decide_eq_true_iff] at hkey
    exact h (hkey ▸ List.mem_map_of_mem hp)

theorem property_put (h : Listed properties) (key key' : JsString) (value : ConfigValue) :
  Json.property (ownOrder (JsMap.put key value properties)) key' =
    if key' = key then some value else Json.property properties key'
  := by
  have hnodup := Listed.nodup_put h.nodup key value
  rw [property_eq_lookup, JsMap.lookup_perm
    (((ownOrder_perm _).map Prod.fst).nodup_iff.2 hnodup) (ownOrder_perm _), JsMap.lookup_put,
    property_eq_lookup]

variable {left right : ConfigObject}

/-- What a name has in one object over another. -/
theorem property_overlay (hleft : Listed left) (hright : Listed right) (key : JsString) :
  Json.property (overlay left right) key =
    match Json.property right key with
    | none => Json.property left key
    | some incoming => some (overlayValue (Json.property left key) incoming)
  := by
  induction right generalizing left with
  | nil => rfl
  | cons entry entries ih =>
      obtain ⟨key', incoming⟩ := entry
      have hsublist : (entries.map Prod.fst).Sublist (((key', incoming) :: entries).map Prod.fst) :=
        List.sublist_cons_self _ _
      rw [overlay, ih (hleft.put _ _) (hright.sublist hsublist), property_put hleft,
        property_eq_lookup ((key', incoming) :: entries), JsMap.lookup]
      by_cases hkey : key' = key
      · subst hkey
        have hfresh : Json.property entries key' = none :=
          property_eq_none (List.nodup_cons.1 hright.nodup).1
        rw [hfresh, if_pos rfl, if_pos rfl]
      · rw [if_neg (Ne.symm hkey), if_neg hkey, property_eq_lookup entries]

/-- Setting the names of an object in a new one gives this object. -/
theorem overlay_append (h : Listed (left ++ right)) :
  overlay left right = left ++ right
  := by
  induction right generalizing left with
  | nil => rw [overlay, List.append_nil]
  | cons entry entries ih =>
      obtain ⟨key, incoming⟩ := entry
      have happend : left ++ [(key, incoming)] ++ entries = left ++ (key, incoming) :: entries := by
        simp
      obtain ⟨hkey, hput⟩ := h.put_next
      have hvalue : overlayValue none incoming = incoming :=
        overlayValue_replaces (by simp)
      rw [overlay, property_eq_none hkey, hvalue, hput, ih (by rwa [happend]), happend]

theorem overlay_nil (h : Listed right) :
  overlay [] right = right
  := overlay_append h

/-! ### The merge is the overlay -/

variable {output : ConfigObject}

/-- A safe name finds an object only where it is an own property. -/
theorem entries_read (hkey : isUnsafeKey key = false) :
  (read output key).entries? =
    match Json.property output key with
    | some (.object properties) => some properties
    | _ => none
  := by
  have hproto : key ≠ ofString "__proto__" := by
    rintro rfl
    rw [isUnsafeKey, decide_eq_true rfl, Bool.true_or, Bool.true_or] at hkey
    cases hkey
  rw [read]
  cases Json.property output key with
  | none =>
      dsimp only
      rw [if_neg hproto]
      split
      · rfl
      · rfl
  | some value =>
      cases value with
      | _ => rfl

theorem write_safe (hkey : isUnsafeKey key = false) (value : ConfigValue) :
  write output key value = ownOrder (JsMap.put key value output)
  := by
  rw [write, if_neg]
  rintro rfl
  rw [isUnsafeKey, decide_eq_true rfl, Bool.true_or, Bool.true_or] at hkey
  cases hkey

variable {value : ConfigObject}

/-- The keys of an admitted object are copied after those that are there. -/
theorem copyMissing_append (path : List JsString) (hlisted : Listed (output ++ value))
    (h : Admitted (.object value)) :
  copyMissing path output value = .ok (output ++ value)
  := by
  induction value generalizing output with
  | nil => rw [copyMissing, List.append_nil]
  | cons entry entries ih =>
      obtain ⟨key, incoming⟩ := entry
      obtain ⟨hkey, hincoming, hentries⟩ := h.of_cons
      have happend : output ++ [(key, incoming)] ++ entries =
          output ++ (key, incoming) :: entries := by simp
      obtain ⟨-, hput⟩ := hlisted.put_next
      rw [copyMissing, hincoming.cloneValue, Except.ok_bind, write_safe hkey, hput,
        ih (by rwa [happend]) hentries, happend]

theorem copyMissing_nil (path : List JsString) (h : Admitted (.object value)) :
  copyMissing path [] value = .ok value
  := by
  have hcopies : copyMissing path [] value = .ok ([] ++ value) :=
    copyMissing_append path h.listed h
  exact hcopies

mutual

/-- An admitted object over an admitted one. -/
theorem mergeEntries_eq : ∀ (right : ConfigObject) (path : List JsString) {output : ConfigObject},
    Admitted (.object output) → Admitted (.object right) →
    mergeEntries path output right = .ok (overlay output right) ∧
      Admitted (.object (overlay output right))
  | [], _, _, houtput, _ => by
      rw [overlay]
      exact ⟨rfl, houtput⟩
  | (key, incoming) :: entries, path, output, houtput, hright => by
      obtain ⟨hkey, hincoming, hentries⟩ := hright.of_cons
      obtain ⟨hmerged, hadmitted⟩ := mergeEntry_eq incoming (path ++ [key]) hkey houtput hincoming
      rw [mergeEntries, hmerged, Except.ok_bind, write_safe hkey, overlay]
      exact mergeEntries_eq entries path (houtput.put hkey hadmitted) hentries

/-- An admitted value over what its key finds. -/
theorem mergeEntry_eq : ∀ (incoming : ConfigValue) (path : List JsString) {output : ConfigObject}
    {key : JsString}, isUnsafeKey key = false → Admitted (.object output) → Admitted incoming →
    mergeEntry path (read output key) incoming =
        .ok (overlayValue (Json.property output key) incoming) ∧
      Admitted (overlayValue (Json.property output key) incoming)
  | .object incoming, path, output, key, hkey, houtput, h => by
      have hentries : (read output key).entries? =
          match Json.property output key with
          | some (.object properties) => some properties
          | _ => none := entries_read hkey
      cases hcurrent : Json.property output key with
      | none =>
          rw [hcurrent] at hentries
          rw [mergeEntry, hentries]
          exact ⟨h.cloneValue path, h⟩
      | some value =>
          rw [hcurrent] at hentries
          cases value with
          | object properties =>
              have hproperties : Admitted (.object properties) := houtput.property hcurrent
              obtain ⟨hmerged, hadmitted⟩ := mergeEntries_eq incoming path hproperties h
              rw [mergeEntry_object path hentries, mergeObjectPair,
                copyMissing_nil path hproperties, Except.ok_bind, hmerged]
              exact ⟨rfl, hadmitted⟩
          | _ =>
              rw [mergeEntry, hentries]
              exact ⟨h.cloneValue path, h⟩
  | .null, path, _, _, _, _, h => ⟨h.cloneValue path, h⟩
  | .bool b, path, _, _, _, _, h => ⟨h.cloneValue path, h⟩
  | .number x, path, _, _, _, _, h => ⟨h.cloneValue path, h⟩
  | .string s, path, _, _, _, _, h => ⟨h.cloneValue path, h⟩
  | .array elements, path, _, _, _, _, h => ⟨h.cloneValue path, h⟩

end

/-- Two admitted objects are merged into the one over the other. -/
theorem mergeObjectPair_eq (hleft : Admitted (.object left)) (hright : Admitted (.object right))
    (path : List JsString) :
  mergeObjectPair left right path = .ok (overlay left right) ∧
    Admitted (.object (overlay left right))
  := by
  rw [mergeObjectPair, copyMissing_nil path hleft, Except.ok_bind]
  exact mergeEntries_eq right path hleft hright

/-- A further document lies over the merge of those before it. -/
theorem mergeObjects_concat {values : List ConfigObject} {merged : ConfigObject}
    (hmerged : mergeObjects values = .ok merged) (hadmitted : Admitted (.object merged))
    (hvalue : Admitted (.object value)) :
  mergeObjects (values ++ [value]) = .ok (overlay merged value)
  := by
  rw [mergeObjects] at hmerged ⊢
  rw [List.foldlM_append, hmerged, Except.ok_bind, List.foldlM_cons,
    (mergeObjectPair_eq hadmitted hvalue []).1]
  rfl

/-- The merge of two admitted objects is the one over the other. -/
theorem mergeObjects_pair (hleft : Admitted (.object left)) (hright : Admitted (.object right)) :
  mergeObjects [left, right] = .ok (overlay left right)
  := by
  have hempty : mergeObjects [] = .ok [] := rfl
  have hone := mergeObjects_concat hempty .nil hleft
  rw [overlay_nil hleft.listed] at hone
  exact mergeObjects_concat hone hleft hright

/-- Admitted documents have a merge, and it is admitted. -/
theorem exists_mergeObjects (documents : List Document) :
  ∃ merged, mergeObjects (documents.map Document.properties) = .ok merged ∧
    Admitted (.object merged)
  := by
  induction documents using List.reverseRecOn with
  | nil => exact ⟨[], rfl, .nil⟩
  | append_singleton documents document ih =>
      obtain ⟨merged, hmerged, hadmitted⟩ := ih
      use overlay merged document.properties
      constructor
      · rw [List.map_append]
        exact mergeObjects_concat hmerged hadmitted document.admitted
      · exact (mergeObjectPair_eq hadmitted document.admitted []).2

/-! ### Paths -/

/-- Every value that a path selects on its way, short of its end, is an object. -/
def ObjectsAlong (value : ConfigValue) (path : List JsString) : Prop :=
  ∀ stem, stem <+: path → stem ≠ path → ∀ selected, selectValue value stem = some selected →
    isConfigObject selected = true

/-- The path meets a value that is not an object, on its way or at its end. -/
def MeetsOther (value : ConfigValue) (path : List JsString) : Prop :=
  ∃ stem, stem <+: path ∧ ∃ selected, selectValue value stem = some selected ∧
    isConfigObject selected = false

variable {path : List JsString}

theorem MeetsOther.tail {segment : JsString}
    (h : MeetsOther (.object properties) (segment :: path)) :
  ∃ next, Json.property properties segment = some next ∧ MeetsOther next path
  := by
  obtain ⟨stem, hstem, selected, hselected, hother⟩ := h
  cases stem with
  | nil =>
      cases hselected
      cases hother
  | cons segment' stem =>
      obtain ⟨rfl, hrest⟩ := List.cons_prefix_cons.1 hstem
      rw [selectValue, Option.bind_eq_some_iff] at hselected
      obtain ⟨next, hnext, hselected⟩ := hselected
      exact ⟨next, hnext, stem, hrest, selected, hselected, hother⟩

theorem ObjectsAlong.tail {segment : JsString}
    (h : ObjectsAlong (.object properties) (segment :: path)) {next : ConfigValue}
    (hnext : Json.property properties segment = some next) :
  ObjectsAlong next path
  := by
  intro stem hstem hne selected hselected
  apply h (segment :: stem) (List.cons_prefix_cons.2 ⟨rfl, hstem⟩)
  · intro heq
    exact hne (List.cons.inj heq).2
  · rw [selectValue, hnext]
    exact hselected

/-- The values are admitted, and the first one may be absent. -/
def AdmittedOver (current : Option ConfigValue) (incoming : ConfigValue) : Prop :=
  (∀ value, current = some value → Admitted value) ∧ Admitted incoming

namespace AdmittedOver

variable {current : Option ConfigValue} {left right : ConfigObject}

variable {segment : JsString} {incoming : ConfigValue}

/-- The values of a name are admitted again. -/
theorem property (h : AdmittedOver (some (.object left)) (.object right))
    (hincoming : Json.property right segment = some incoming) :
  AdmittedOver (Json.property left segment) incoming
  := ⟨fun _ hvalue => (h.1 _ rfl).property hvalue, h.2.property hincoming⟩

variable {path : List JsString}

/-- Below a name of one object over another, both values stand over each other. -/
theorem select_cons (h : AdmittedOver (some (.object left)) (.object right))
    (hincoming : Json.property right segment = some incoming) :
  selectValue (overlayValue (some (.object left)) (.object right)) (segment :: path) =
    selectValue (overlayValue (Json.property left segment) incoming) path
  := by
  rw [overlayValue, selectValue, property_overlay (h.1 _ rfl).listed h.2.listed, hincoming]
  rfl

/-- Below a name that the upper object does not have, the lower one is selected. -/
theorem select_absent (h : AdmittedOver (some (.object left)) (.object right))
    (hnone : Json.property right segment = none) :
  selectValue (overlayValue (some (.object left)) (.object right)) (segment :: path) =
    selectValue (.object left) (segment :: path)
  := by
  rw [overlayValue, selectValue, property_overlay (h.1 _ rfl).listed h.2.listed, hnone]
  rfl

/-- A path that meets another value in the incoming one selects what it selects there. -/
theorem select_other (h : AdmittedOver current incoming) (hother : MeetsOther incoming path) :
  selectValue (overlayValue current incoming) path = selectValue incoming path
  := by
  induction path generalizing current incoming with
  | nil =>
      obtain ⟨stem, hstem, selected, hselected, hother⟩ := hother
      rw [List.prefix_nil.1 hstem] at hselected
      cases hselected
      rw [overlayValue_replaces]
      rintro ⟨left, right, -, rfl⟩
      cases hother
  | cons segment path ih =>
      by_cases hobjects : ∃ left right, current = some (.object left) ∧ incoming = .object right
      · obtain ⟨left, right, rfl, rfl⟩ := hobjects
        obtain ⟨next, hnext, hother⟩ := hother.tail
        rw [h.select_cons hnext, ih (h.property hnext) hother, selectValue, hnext]
        rfl
      · rw [overlayValue_replaces hobjects]

/-- A path to objects in both values selects the one over the other. -/
theorem select_both {value : ConfigValue} (h : AdmittedOver (some value) incoming)
    (hleft : selectValue value path = some (.object left))
    (hright : selectValue incoming path = some (.object right)) :
  selectValue (overlayValue (some value) incoming) path = some (.object (overlay left right))
  := by
  induction path generalizing value incoming with
  | nil =>
      cases hleft
      cases hright
      rw [selectValue, overlayValue]
  | cons segment path ih =>
      cases value with
      | object below =>
          cases incoming with
          | object above =>
              rw [selectValue, Option.bind_eq_some_iff] at hleft hright
              obtain ⟨nextLeft, hnextLeft, hleft⟩ := hleft
              obtain ⟨nextRight, hnextRight, hright⟩ := hright
              have hnext := h.property hnextRight
              rw [h.select_cons hnextRight]
              rw [hnextLeft] at hnext ⊢
              exact ih hnext hleft hright
          | _ => cases hright
      | _ => cases hleft

/-- A path that the incoming value does not select, with objects along it, selects what it
selects below. -/
theorem select_below (h : AdmittedOver current incoming)
    (habsent : selectValue incoming path = none) (halong : ObjectsAlong incoming path) :
  selectValue (overlayValue current incoming) path =
    current.bind fun value => selectValue value path
  := by
  induction path generalizing current incoming with
  | nil => cases habsent
  | cons segment path ih =>
      by_cases hobjects : ∃ left right, current = some (.object left) ∧ incoming = .object right
      · obtain ⟨left, right, rfl, rfl⟩ := hobjects
        cases hnext : Json.property right segment with
        | none =>
            rw [h.select_absent hnext]
            rfl
        | some next =>
            rw [selectValue, hnext] at habsent
            rw [h.select_cons hnext, ih (h.property hnext) habsent (halong.tail hnext)]
            rfl
      · rw [overlayValue_replaces hobjects, habsent]
        cases current with
        | none => rfl
        | some value =>
            have hroot := halong [] List.nil_prefix (List.cons_ne_nil _ _).symm incoming rfl
            cases incoming with
            | object right =>
                cases value with
                | object left => exact absurd ⟨left, right, rfl, rfl⟩ hobjects
                | _ => rfl
            | _ => cases hroot

/-- A path to an object in the incoming value and to none below selects this object. -/
theorem select_above (h : AdmittedOver current incoming)
    (hright : selectValue incoming path = some (.object right))
    (hleft : ∀ left, (current.bind fun value => selectValue value path) ≠ some (.object left)) :
  selectValue (overlayValue current incoming) path = some (.object right)
  := by
  induction path generalizing current incoming with
  | nil =>
      rw [overlayValue_replaces]
      · exact hright
      · rintro ⟨left, right, rfl, -⟩
        exact hleft left rfl
  | cons segment path ih =>
      by_cases hobjects : ∃ left right, current = some (.object left) ∧ incoming = .object right
      · obtain ⟨left, above, rfl, rfl⟩ := hobjects
        rw [selectValue, Option.bind_eq_some_iff] at hright
        obtain ⟨next, hnext, hright⟩ := hright
        rw [h.select_cons hnext]
        exact ih (h.property hnext) hright hleft
      · rw [overlayValue_replaces hobjects]
        exact hright

/-- What a path selects, it selects above or below. -/
theorem select_own (h : AdmittedOver current incoming)
    (hselected : selectValue (overlayValue current incoming) path ≠ none) :
  (current.bind fun value => selectValue value path) ≠ none ∨ selectValue incoming path ≠ none
  := by
  by_cases habsent : selectValue incoming path = none
  · by_cases hother : MeetsOther incoming path
    · rw [h.select_other hother] at hselected
      exact .inr hselected
    · have halong : ObjectsAlong incoming path := by
        intro stem hstem _ selected hstemSelected
        by_contra hobject
        exact hother ⟨stem, hstem, selected, hstemSelected, eq_false_of_ne_true hobject⟩
      rw [h.select_below habsent halong] at hselected
      exact .inl hselected
  · exact .inr habsent

end AdmittedOver

/-- A merge selects nothing that no document selects. -/
theorem selected_by_document {documents : List Document} {merged : ConfigObject}
    (hmerged : mergeObjects (documents.map Document.properties) = .ok merged) (hpath : path ≠ [])
    (hselected : selectValue (.object merged) path ≠ none) :
  ∃ document ∈ documents, selectValue document.value path ≠ none
  := by
  induction documents using List.reverseRecOn generalizing merged with
  | nil =>
      cases hmerged
      cases path with
      | nil => exact absurd rfl hpath
      | cons segment path => exact absurd rfl hselected
  | append_singleton documents document ih =>
      obtain ⟨before, hbefore, hadmitted⟩ := exists_mergeObjects documents
      rw [List.map_append, List.map_singleton,
        mergeObjects_concat hbefore hadmitted document.admitted] at hmerged
      cases hmerged
      have hover : AdmittedOver (some (.object before)) document.value :=
        ⟨by rintro _ ⟨⟩; exact hadmitted, document.admitted⟩
      obtain hbelow | habove := hover.select_own hselected
      · obtain ⟨other, hother, hselected⟩ := ih hbefore hbelow
        exact ⟨other, List.mem_append_left _ hother, hselected⟩
      · exact ⟨document, List.mem_append_right _ (List.mem_singleton_self _), habove⟩

/-- The path law of a further document. Where the document has a value that is not an object on
the way or at the end of a path, it decides what the path selects; objects at the path in both are
merged; where it has nothing at the path but objects along it, or nothing, the earlier documents
decide; an object over anything else is taken as it is. A path selects nothing that no document
has at it. -/
theorem mergeObjects_path_law (documents : List Document) (document : Document) :
  ∃ merged result : ConfigObject,
    mergeObjects (documents.map Document.properties) = .ok merged ∧
    mergeObjects ((documents ++ [document]).map Document.properties) = .ok result ∧
    ∀ path : List JsString,
      (MeetsOther document.value path →
        selectValue (.object result) path = selectValue document.value path) ∧
      (∀ left right, selectValue (.object merged) path = some (.object left) →
        selectValue document.value path = some (.object right) →
        ∃ both, mergeObjects [left, right] = .ok both ∧
          selectValue (.object result) path = some (.object both)) ∧
      (selectValue document.value path = none → ObjectsAlong document.value path →
        selectValue (.object result) path = selectValue (.object merged) path) ∧
      (∀ right, selectValue document.value path = some (.object right) →
        (∀ left, selectValue (.object merged) path ≠ some (.object left)) →
        selectValue (.object result) path = some (.object right)) ∧
      (path ≠ [] → selectValue (.object result) path ≠ none →
        ∃ source ∈ documents ++ [document], selectValue source.value path ≠ none)
  := by
  obtain ⟨merged, hmerged, hadmitted⟩ := exists_mergeObjects documents
  have hresult : mergeObjects ((documents ++ [document]).map Document.properties) =
      .ok (overlay merged document.properties) := by
    rw [List.map_append, List.map_singleton]
    exact mergeObjects_concat hmerged hadmitted document.admitted
  have hover : AdmittedOver (some (.object merged)) document.value :=
    ⟨by rintro _ ⟨⟩; exact hadmitted, document.admitted⟩
  use merged, overlay merged document.properties, hmerged, hresult
  intro path
  refine ⟨hover.select_other, ?_, hover.select_below, ?_, ?_⟩
  · intro left right hleft hright
    use overlay left right
    constructor
    · apply mergeObjects_pair
      · exact hadmitted.selectValue hleft
      · exact Admitted.selectValue document.admitted hright
    · exact hover.select_both hleft hright
  · intro right hright hleft
    exact hover.select_above hright hleft
  · intro hpath hselected
    exact selected_by_document hresult hpath hselected

/-! ### The validator -/

end Config
