import GoLike.Config.Value
import GoLike.Lib.Trie

/-!
# The environment source

The variables of an environment record whose names begin with a prefix are selected. The rest
of a name is split into the path of the decoded value. Paths are inserted into a tree, which
refuses a path that has been inserted, and one below a path that has been inserted; then the
tree is turned into a configuration object.
-/

namespace Config

/-- The lower case of a string of ASCII characters. -/
def asciiLower (s : JsString) : JsString :=
  ⟨s.units.map (fun u => if 65 ≤ u ∧ u ≤ 90 then u + 32 else u)⟩

/-- The operations on strings that depend on tables of characters. -/
structure StringHost where
  toLowerCase : JsString → JsString
  localeCompare : JsString → JsString → ℤ
  toLowerCase_ascii : ∀ s : JsString, (∀ u ∈ s.units, u < 128) → toLowerCase s = asciiLower s

/-! ### Options -/

/-- A variable of an environment record. -/
inductive EnvironmentValue where
  | undefined
  | string (s : JsString)
  /-- A value of another type. -/
  | other
  | accessor
  deriving DecidableEq

/-- An environment record, with its enumerable properties. -/
abbrev EnvironmentRecord := JsMap JsString EnvironmentValue

/-- Why a source cannot be created. -/
inductive EnvFailure (ε : Type) where
  | typeError (error : TypeError)
  /-- The decoder throws. -/
  | decoder (reason : ε)
  deriving DecidableEq

/-- Decodes a value, given the name of its variable and its path. -/
abbrev EnvValueDecoder (ε : Type) := JsString → JsString → List JsString → Except ε Unknown

structure EnvSourceOptions (ε : Type) where
  name : Option JsString
  namePrefix : Option JsString
  separator : Option JsString
  lowercase : Option Bool
  decode : Option (EnvValueDecoder ε)

/-- A selected value and its path. -/
structure EnvEntry where
  path : List JsString
  value : ConfigValue

variable {ε : Type}

/-- The default decoder. -/
def identityValue : EnvValueDecoder ε := fun value _ _ => .ok (.string value)

/-! ### Values -/

/-- The path of a value, in the text of an error. -/
def dotted (path : List JsString) : JsString := JsString.joinWith (JsString.ofString ".") path

def invalidValue (path : List JsString) : TypeError :=
  typeErrorAt "invalid environment value" (dotted path)

mutual

/-- Copy a decoded value. -/
def copyConfigValue (path : List JsString) : Unknown → Except TypeError ConfigValue
  | .null => .ok .null
  | .boolean b => .ok (.bool b)
  | .string s => .ok (.string s)
  | .number x => if x.toRat?.isSome then .ok (.number x) else .error (invalidValue path)
  | .other => .error (invalidValue path)
  | .array symbols names entries =>
      if symbols || names ≠ entries.length + 1 then .error (invalidValue path)
      else (copyElements path 0 entries).map .array
  | .object symbols ordinary properties =>
      if symbols then .error (invalidValue path)
      else if !ordinary then .error (invalidValue path)
      else (copyProperties path properties).map .object
  termination_by structural value => value

/-- Copy the entries of an array from an index on. -/
def copyElements (path : List JsString) (index : ℕ) :
    List (Option (Bool × Unknown)) → Except TypeError (List ConfigValue)
  | [] => .ok []
  | none :: _ => .error (invalidValue path)
  | some (enumerable, value) :: entries =>
      if !enumerable then .error (invalidValue path)
      else do
        let copy ← copyConfigValue (path ++ [JsString.ofNat index]) value
        let copies ← copyElements path (index + 1) entries
        pure (copy :: copies)
  termination_by structural entries => entries

/-- Copy the properties of an object. -/
def copyProperties (path : List JsString) :
    List (JsString × Option (Bool × Unknown)) → Except TypeError ConfigObject
  | [] => .ok []
  | (key, property) :: properties =>
      if isUnsafeKey key then
        .error (typeErrorAt "unsafe environment value key" (dotted (path ++ [key])))
      else
        match property with
        | none => .error (invalidValue (path ++ [key]))
        | some (enumerable, value) =>
            if !enumerable then .error (invalidValue (path ++ [key]))
            else do
              let copy ← copyConfigValue (path ++ [key]) value
              let copies ← copyProperties path properties
              pure ((key, copy) :: copies)
  termination_by structural properties => properties

end

/-! ### Paths -/

/-- The segment of a path for a part of a name. -/
def pathSegment (host : StringHost) (lowercase : Bool) (rawSegment : JsString) : JsString :=
  if lowercase then host.toLowerCase rawSegment else rawSegment

/-- Validate the segments of a path. -/
def pathSegments (host : StringHost) (lowercase : Bool) :
    List JsString → Except TypeError (List JsString)
  | [] => .ok []
  | rawSegment :: rawSegments =>
      if rawSegment.isEmpty then
        .error (typeError "environment key contains an empty path segment")
      else
        let segment := pathSegment host lowercase rawSegment
        if isUnsafeKey (host.toLowerCase segment) then .error (typeError "unsafe environment path")
        else do
          let segments ← pathSegments host lowercase rawSegments
          pure (segment :: segments)

/-- The path of a variable, unless its name is not selected. -/
def environmentPath (host : StringHost) (environmentName namePrefix separator : JsString)
    (lowercase : Bool) : Except TypeError (Option (List JsString)) :=
  if !environmentName.startsWith namePrefix then .ok none
  else
    let suffix := environmentName.slice namePrefix.units.length
    if suffix.isEmpty then .ok none
    else (pathSegments host lowercase (suffix.split separator)).map some

/-! ### The tree -/

/-- The variables of a node, without its children. -/
structure EnvLabel where
  value : ConfigValue
  occupied : Bool

abbrev EnvNode := Trie JsString EnvLabel

def newNode : EnvNode := .node ⟨.null, false⟩ []

/-- Insert a value at a path below a node. -/
def insertValue (value : ConfigValue) : EnvNode → List JsString → Except TypeError EnvNode
  | node, [] =>
      if node.label.occupied then .error (typeError "duplicate environment path")
      else .ok (.node ⟨value, true⟩ node.children)
  | node, segment :: path =>
      if node.label.occupied then .error (typeError "environment paths conflict")
      else do
        let child := (JsMap.lookup segment node.children).getD newNode
        let child' ← insertValue value child path
        pure (.node node.label (JsMap.put segment child' node.children))

/-- Insert an entry. -/
def insertEntry (root : EnvNode) (entry : EnvEntry) : Except TypeError EnvNode :=
  insertValue entry.value root entry.path

/-- Insert entries, one after the other. -/
def insertEntries (root : EnvNode) : List EnvEntry → Except TypeError EnvNode
  | [] => .ok root
  | entry :: entries => do
      let root' ← insertEntry root entry
      insertEntries root' entries

def compareEntries (host : StringHost) {α : Type} (left right : JsString × α) : ℤ :=
  host.localeCompare left.1 right.1

mutual

/-- The configuration object of a node. The values do not matter to the order of the keys. -/
def materializeNode (host : StringHost) : EnvNode → ConfigObject
  | .node _ children =>
      (materializeChildren host children).insertionSort
        (fun left right => compareEntries host left right ≤ 0)
  termination_by structural node => node

def materializeChildren (host : StringHost) : List (JsString × EnvNode) → ConfigObject
  | [] => []
  | (key, child) :: children =>
      (key, if child.label.occupied then child.label.value
        else .object (materializeNode host child)) :: materializeChildren host children
  termination_by structural children => children

end

/-! ### The source -/

namespace EnvSourceOptions

def resolvedSeparator (options : EnvSourceOptions ε) : JsString :=
  options.separator.getD (JsString.ofString "__")

def resolvedName (options : EnvSourceOptions ε) : JsString :=
  options.name.getD (JsString.ofString "env")

/-- The path of a variable. -/
def pathOf (host : StringHost) (options : EnvSourceOptions ε) (environmentName : JsString) :
    Except TypeError (Option (List JsString)) :=
  environmentPath host environmentName (options.namePrefix.getD .empty) options.resolvedSeparator
    (options.lowercase.getD true)

/-- The entry of a variable, unless it is not selected. -/
def entry (host : StringHost) (environment : EnvironmentRecord) (options : EnvSourceOptions ε)
    (environmentName : JsString) : Except (EnvFailure ε) (Option EnvEntry) := do
  match ← (options.pathOf host environmentName).mapError .typeError with
  | none => pure none
  | some path =>
      match environment.get? environmentName with
      | some .undefined => pure none
      | some (.string rawValue) => do
          let decode := options.decode.getD identityValue
          let decoded ← (decode rawValue environmentName path).mapError .decoder
          let value ← (copyConfigValue path decoded).mapError .typeError
          pure (some ⟨path, value⟩)
      | some .other =>
          .error (.typeError (typeError "environment values must be strings or undefined"))
      | _ =>
          .error (.typeError (typeError "environment record must contain only data properties"))

/-- The entries of variables, in order. -/
def entries (host : StringHost) (environment : EnvironmentRecord) (options : EnvSourceOptions ε) :
    List JsString → Except (EnvFailure ε) (List EnvEntry)
  | [] => .ok []
  | environmentName :: names => do
      let found ← options.entry host environment environmentName
      let entries ← options.entries host environment names
      pure (found.toList ++ entries)

end EnvSourceOptions

/-- The names of the variables, in order. -/
def sortedNames (environment : EnvironmentRecord) : List JsString :=
  (environment.entries.map Prod.fst).insertionSort (fun left right => left.units ≤ right.units)

/-- Create a configuration source from an environment record. -/
def envSource (host : StringHost) (environment : EnvironmentRecord)
    (options : EnvSourceOptions ε) : Except (EnvFailure ε) ConfigSource :=
  if options.resolvedName.isEmpty then
    .error (.typeError (typeError "environment source name must be non-empty"))
  else if options.resolvedSeparator.isEmpty then
    .error (.typeError (typeError "environment separator must be non-empty"))
  else do
    let entries ← options.entries host environment (sortedNames environment)
    let root ← (insertEntries newNode entries).mapError .typeError
    (objectSource options.resolvedName (materializeNode host root)).mapError .typeError

end Config
