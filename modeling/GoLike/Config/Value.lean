import GoLike.Lib.JsSplit
import GoLike.Lib.Json

/-!
# Configuration values

A configuration value is a JSON document whose numbers are finite and whose keys are safe.
Values of the runtime are admitted when they have this form, and a source of an object
holds an admitted copy of it.
-/

namespace Config

/-- A configuration value. -/
abbrev ConfigValue := Json

/-- The properties of a configuration object. -/
abbrev ConfigObject := List (JsString × Json)

/-- A type error with its message. -/
structure TypeError where
  message : JsString
  deriving DecidableEq

def typeError (text : String) : TypeError := ⟨JsString.ofString text⟩

/-- A type error at a path. -/
def typeErrorAt (text : String) (path : JsString) : TypeError :=
  ⟨JsString.ofString text ++ JsString.ofString " at " ++ path⟩

/-- A value of the runtime, its own data properties with whether they are enumerable. -/
inductive Unknown where
  | null
  | boolean (b : Bool)
  | number (x : JsNumber)
  | string (s : JsString)
  /-- A value of another type. -/
  | other
  /-- An array, with whether it has symbols and the number of its property names. An entry that
  is absent or an accessor has no data. -/
  | array (symbols : Bool) (names : ℕ) (entries : List (Option (Bool × Unknown)))
  /-- An object, with whether it has symbols, and whether its prototype is that of an ordinary
  object or null. An accessor has no data. -/
  | object (symbols ordinary : Bool) (properties : List (JsString × Option (Bool × Unknown)))

/-- A property name that can mutate or confuse an ordinary object. -/
def isUnsafeKey (key : JsString) : Bool :=
  key = JsString.ofString "__proto__" || key = JsString.ofString "prototype" ||
    key = JsString.ofString "constructor"

/-- A structural location. -/
def formatPath (path : List JsString) : JsString :=
  if path.isEmpty then JsString.ofString "<root>"
  else JsString.joinWith (JsString.ofString ".") path

/-! ### Copies -/

mutual

/-- Copy a value. -/
def cloneValue (path : List JsString) : Unknown → Except TypeError ConfigValue
  | .null => .ok .null
  | .boolean b => .ok (.bool b)
  | .string s => .ok (.string s)
  | .number x =>
      if x.toRat?.isSome then .ok (.number x)
      else .error (typeErrorAt "invalid configuration number" (formatPath path))
  | .other => .error (typeErrorAt "invalid configuration value" (formatPath path))
  | .array symbols names entries =>
      if symbols then
        .error (typeErrorAt "configuration array contains a symbol" (formatPath path))
      else if names ≠ entries.length + 1 then
        .error (typeErrorAt "configuration array has an unsupported property" (formatPath path))
      else (cloneArray path 0 entries).map .array
  | .object symbols ordinary properties =>
      if !ordinary then .error (typeErrorAt "invalid configuration object" (formatPath path))
      else if symbols then
        .error (typeErrorAt "configuration object contains a symbol" (formatPath path))
      else (cloneObject path properties).map .object
  termination_by structural value => value

/-- Copy the entries of an array from an index on. -/
def cloneArray (path : List JsString) (index : ℕ) :
    List (Option (Bool × Unknown)) → Except TypeError (List ConfigValue)
  | [] => .ok []
  | none :: _ =>
      .error (typeErrorAt "invalid configuration array entry"
        (formatPath (path ++ [JsString.ofNat index])))
  | some (_, value) :: entries => do
      let copy ← cloneValue (path ++ [JsString.ofNat index]) value
      let copies ← cloneArray path (index + 1) entries
      pure (copy :: copies)
  termination_by structural entries => entries

/-- Copy the properties of an object. -/
def cloneObject (path : List JsString) :
    List (JsString × Option (Bool × Unknown)) → Except TypeError ConfigObject
  | [] => .ok []
  | (key, property) :: properties =>
      if isUnsafeKey key then
        .error (typeErrorAt "unsafe configuration key" (formatPath (path ++ [key])))
      else
        match property with
        | none =>
            .error (typeErrorAt "invalid configuration property" (formatPath (path ++ [key])))
        | some (_, value) => do
            let copy ← cloneValue (path ++ [key]) value
            let copies ← cloneObject path properties
            pure ((key, copy) :: copies)
  termination_by structural properties => properties

end

mutual

/-- A configuration value, as a value of the runtime. -/
def ofValue : ConfigValue → Unknown
  | .null => .null
  | .bool b => .boolean b
  | .number x => .number x
  | .string s => .string s
  | .array elements => .array false (elements.length + 1) (ofElements elements)
  | .object properties => .object false true (ofProperties properties)
  termination_by structural value => value

def ofElements : List ConfigValue → List (Option (Bool × Unknown))
  | [] => []
  | value :: values => some (true, ofValue value) :: ofElements values
  termination_by structural values => values

def ofProperties : ConfigObject → List (JsString × Option (Bool × Unknown))
  | [] => []
  | (key, value) :: properties => (key, some (true, ofValue value)) :: ofProperties properties
  termination_by structural properties => properties

end

/-- Validate a value and its structured clone, which is the same value. -/
def frozenClone (value : ConfigValue) : Except TypeError ConfigValue := do
  let _ ← cloneValue [] (ofValue value)
  let _ ← cloneValue [] (ofValue value)
  pure value

/-! ### Admitted values -/

mutual

/-- The numbers of a value are finite, and its keys are safe. -/
def isAdmitted : ConfigValue → Bool
  | .number x => x.toRat?.isSome
  | .array elements => areAdmitted elements
  | .object properties => haveAdmitted properties
  | .null => true
  | .bool _ => true
  | .string _ => true
  termination_by structural value => value

def areAdmitted : List ConfigValue → Bool
  | [] => true
  | value :: values => isAdmitted value && areAdmitted values
  termination_by structural values => values

def haveAdmitted : ConfigObject → Bool
  | [] => true
  | (key, value) :: properties =>
      !isUnsafeKey key && isAdmitted value && haveAdmitted properties
  termination_by structural properties => properties

end

theorem length_ofElements (values : List ConfigValue) :
  (ofElements values).length = values.length
  := by
  induction values with
  | nil => rfl
  | cons value values ih => rw [ofElements, List.length_cons, List.length_cons, ih]

mutual

/-- The copy of an admitted value is this value. -/
theorem cloneValue_ofValue : ∀ (value : ConfigValue) (path : List JsString),
    isAdmitted value = true → cloneValue path (ofValue value) = .ok value
  | .null, _, _ => by rfl
  | .bool _, _, _ => by rfl
  | .string _, _, _ => by rfl
  | .number x, path, h => by
      rw [isAdmitted] at h
      rw [ofValue, cloneValue, if_pos h]
  | .array elements, path, h => by
      rw [isAdmitted] at h
      rw [ofValue, cloneValue, if_neg Bool.false_ne_true, length_ofElements,
        if_neg (not_not_intro rfl), cloneArray_ofElements elements path 0 h]
      rfl
  | .object properties, path, h => by
      rw [isAdmitted] at h
      rw [ofValue, cloneValue, Bool.not_true, if_neg Bool.false_ne_true,
        if_neg Bool.false_ne_true, cloneObject_ofProperties properties path h]
      rfl

theorem cloneArray_ofElements : ∀ (values : List ConfigValue) (path : List JsString) (index : ℕ),
    areAdmitted values = true → cloneArray path index (ofElements values) = .ok values
  | [], _, _, _ => by rfl
  | value :: values, path, index, h => by
      rw [areAdmitted, Bool.and_eq_true] at h
      rw [ofElements, cloneArray, cloneValue_ofValue value _ h.1,
        cloneArray_ofElements values path (index + 1) h.2]
      rfl

theorem cloneObject_ofProperties : ∀ (properties : ConfigObject) (path : List JsString),
    haveAdmitted properties = true → cloneObject path (ofProperties properties) = .ok properties
  | [], _, _ => by rfl
  | (key, value) :: properties, path, h => by
      rw [haveAdmitted, Bool.and_eq_true, Bool.and_eq_true, Bool.not_eq_true'] at h
      obtain ⟨⟨hkey, hvalue⟩, hproperties⟩ := h
      rw [ofProperties, cloneObject, hkey, if_neg Bool.false_ne_true, cloneValue_ofValue value _ hvalue,
        cloneObject_ofProperties properties path hproperties]
      rfl

end

theorem frozenClone_of_admitted {value : ConfigValue} (h : isAdmitted value = true) :
  frozenClone value = .ok value
  := by
  rw [frozenClone, cloneValue_ofValue value [] h]
  rfl

theorem haveAdmitted_iff (properties : ConfigObject) :
  haveAdmitted properties = true ↔
    ∀ p ∈ properties, isUnsafeKey p.1 = false ∧ isAdmitted p.2 = true
  := by
  induction properties with
  | nil => simp [haveAdmitted]
  | cons p properties ih =>
      rw [haveAdmitted, Bool.and_eq_true, Bool.and_eq_true, Bool.not_eq_true', ih,
        List.forall_mem_cons]

/-! ### Sources -/

/-- A source document and its revision. -/
structure ConfigSourceSnapshot where
  value : ConfigObject
  revision : Option JsString

/-- A source that loads the same document for every context. -/
structure ConfigSource where
  name : JsString
  load : ConfigSourceSnapshot

/-- A source of a copy of an object. -/
def objectSource (name : JsString) (value : ConfigObject) : Except TypeError ConfigSource :=
  if name.isEmpty then .error (typeError "configuration source name must be non-empty")
  else do
    let stable ← frozenClone (.object value)
    match stable with
    | .object value => pure ⟨name, ⟨value, none⟩⟩
    | _ => .error (typeError "configuration source root must be an object")

theorem objectSource_of_admitted {name : JsString} (hname : name.isEmpty = false)
    {value : ConfigObject} (h : haveAdmitted value = true) :
  objectSource name value = .ok ⟨name, ⟨value, none⟩⟩
  := by
  have hclone : frozenClone (.object value) = .ok (.object value) := by
    apply frozenClone_of_admitted
    rw [isAdmitted]
    exact h
  rw [objectSource, hname, if_neg Bool.false_ne_true, hclone]
  rfl

end Config
