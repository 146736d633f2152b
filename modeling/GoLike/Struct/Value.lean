import GoLike.Lib.JsMap
import GoLike.Lib.OwnOrder

/-!
# Values of a struct

A value is a primitive, an opaque object, or a container in a heap: an array, or an object
whose prototype is that of an object literal or none. Containers are compared by their address,
so a heap may share a container and may be cyclic. An array may have lost the prototype of an
array, and then it is plain as well.
-/

namespace Struct

/-- What an object is that is neither an array nor plain, or that a primitive is boxed as. -/
inductive ForeignKind where
  | bigint
  | date (valid : Bool)
  | blob
  | file
  | arrayBuffer
  | other
  deriving DecidableEq

/-- A value of the program. -/
inductive Value where
  | undefined
  | null
  | boolean (b : Bool)
  | number (n : JsNumber)
  | string (s : JsString)
  | foreign (kind : ForeignKind) (identity : ℕ)
  | container (address : ℕ)
  deriving DecidableEq

/-- What a container is; `plainPrototype` says that the prototype of an array was replaced by
that of an object literal or by none. -/
inductive ContainerKind where
  | array (length : ℕ) (plainPrototype : Bool)
  | object
  deriving DecidableEq

/-- What a property holds: a value, or a getter that is called when the property is read. -/
inductive Slot where
  | data (value : Value)
  | accessor (getter : ℕ)
  deriving DecidableEq

/-- The value that a property without a getter holds. -/
def Slot.data? : Slot → Option Value
  | .data value => some value
  | .accessor _ => none

/-- An own property. -/
structure Property where
  enumerable : Bool
  slot : Slot
  deriving DecidableEq

/-- A container, with its own properties in the order in which they were set. The length of an
array is not among them. -/
structure Container where
  kind : ContainerKind
  properties : JsMap JsString Property

/-- The containers of a program by their addresses. -/
abbrev Heap := ℕ → Container

/-- The container is an array. -/
def Container.isArray (c : Container) : Bool :=
  match c.kind with
  | .array .. => true
  | .object => false

/-- The prototype of the container is that of an object literal or none. -/
def Container.isPlain (c : Container) : Bool :=
  match c.kind with
  | .array _ plainPrototype => plainPrototype
  | .object => true

/-- The length of an array. -/
def Container.length (c : Container) : ℕ :=
  match c.kind with
  | .array length _ => length
  | .object => 0

/-- The own property of a container under a name. -/
def Container.ownProperty (c : Container) (key : JsString) : Option Property :=
  if c.isArray && key = .ofString "length" then
    some ⟨false, .data (.number (.ofNat c.length))⟩
  else c.properties.get? key

/-- `Object.hasOwn`. -/
def Container.hasOwn (c : Container) (key : JsString) : Bool := (c.ownProperty key).isSome

/-- The own enumerable properties, in the order in which `Object.keys` lists their names. -/
def Container.enumerable (c : Container) : List (JsString × Property) :=
  (OwnOrder.ownOrder c.properties.entries).filter (fun p => p.2.enumerable)

/-- `Object.keys`. -/
def Container.keys (c : Container) : List JsString := c.enumerable.map Prod.fst

/-- The values of the own enumerable properties that have no getter, in order. -/
def Container.dataValues (c : Container) : List Value :=
  c.enumerable.filterMap (fun p => p.2.slot.data?)

/-- `Array.isArray`. -/
def isArray (heap : Heap) : Value → Bool
  | .container address => (heap address).isArray
  | _ => false

/-- The value is an object whose prototype is that of an object literal or none. -/
def isPlainObject (heap : Heap) : Value → Bool
  | .container address => (heap address).isPlain
  | _ => false

/-- The container of a value that is an array or a plain object. -/
def valueContainer (heap : Heap) (value : Value) : Option ℕ :=
  match value with
  | .container address =>
      if isArray heap value || isPlainObject heap value then some address else none
  | _ => none

end Struct
