import GoLike.Lib.Fallible
import GoLike.Struct.ValueGraph

/-!
# Definitions of structs

A struct describes the values it accepts. Its definition may hold other structs, and a field of
an object may be given by a getter, which is how a struct refers to itself. What the hooks of
structs and the accessors of values answer is left to the host.
-/

namespace Struct

/-! ### Equality of values -/

/-- Two numbers are the same value, or both are zero. -/
def sameNumber (x y : JsNumber) : Bool :=
  x = y || (x = .negZero && y = .finite 0) || (x = .finite 0 && y = .negZero)

/-- `Object.is`. -/
def objectIs (v w : Value) : Bool := v = w

/-- The equality of `Array.prototype.includes`, of a set and of a map. -/
def sameValueZero : Value → Value → Bool
  | .number x, .number y => sameNumber x y
  | v, w => v = w

/-- `===`. -/
def strictEquals : Value → Value → Bool
  | .number x, .number y => x ≠ .nan && sameNumber x y
  | v, w => v = w

/-! ### Definitions -/

/-- The value of a literal struct. -/
inductive LiteralValue where
  | boolean (b : Bool)
  | null
  | number (n : JsNumber)
  | string (s : JsString)
  deriving DecidableEq

/-- The literal as a value. -/
def LiteralValue.toValue : LiteralValue → Value
  | .boolean b => .boolean b
  | .null => .null
  | .number n => .number n
  | .string s => .string s

/-- A value of an enum struct. -/
inductive EnumValue where
  | number (n : JsNumber)
  | string (s : JsString)
  deriving DecidableEq

/-- The value of an enum as a value. -/
def EnumValue.toValue : EnumValue → Value
  | .number n => .number n
  | .string s => .string s

/-- What a primitive struct is. -/
inductive PrimitiveKind where
  | arrayBuffer
  | bigint
  | blob
  | boolean
  | date
  | file
  | null
  | number
  | string
  deriving DecidableEq

/-- A field of a shape: a struct, or a getter of one. -/
inductive Field (σ : Type) where
  | declared (struct : σ)
  | getter (identity : ℕ)

/-- A definition, by the structs it holds. -/
inductive Definition (σ : Type) where
  | any
  | unknown
  | primitive (kind : PrimitiveKind)
  | literal (value : LiteralValue)
  | enum (values : List EnumValue)
  | array (item : σ)
  | object (shape : List (JsString × Field σ))
  | record (value : σ)
  | tuple (items : List σ)
  | or (options : List σ) (uniformIdentityEncode : Bool)
  | discriminatedUnion (discriminator : JsString) (discriminatorWireKeys : List JsString)
      (map : List (LiteralValue × σ)) (wireKeyByValue : List (LiteralValue × JsString))
  | intersection (objectSides : Bool) (options : List σ)

/-- A struct: an object of its own, with its modifiers and its definition. -/
inductive RuntimeStruct where
  | mk (identity : ℕ) (aliasName : Option JsString) (nullable optional : Bool)
      (definition : Definition RuntimeStruct)

namespace RuntimeStruct

def identity : RuntimeStruct → ℕ
  | mk identity _ _ _ _ => identity

def aliasName : RuntimeStruct → Option JsString
  | mk _ aliasName _ _ _ => aliasName

def nullable : RuntimeStruct → Bool
  | mk _ _ nullable _ _ => nullable

def optional : RuntimeStruct → Bool
  | mk _ _ _ optional _ => optional

def definition : RuntimeStruct → Definition RuntimeStruct
  | mk _ _ _ _ definition => definition

end RuntimeStruct

/-! ### Primitives -/

/-- `definition.is`. -/
def PrimitiveKind.is : PrimitiveKind → Value → Bool
  | .string, .string _ => true
  | .number, .number n => n ≠ .nan
  | .boolean, .boolean _ => true
  | .null, .null => true
  | .blob, .foreign kind _ => kind = .blob || kind = .file
  | .bigint, .foreign kind _ => kind = .bigint
  | .bigint, .string _ => true
  | .date, .foreign (.date _) _ => true
  | .date, .string _ => true
  | .date, .number _ => true
  | .file, .foreign kind _ => kind = .file
  | .arrayBuffer, .foreign kind _ => kind = .arrayBuffer
  | _, _ => false

/-- `definition.runtimeIs ?? definition.is`. -/
def PrimitiveKind.runtimeIs : PrimitiveKind → Value → Bool
  | .bigint, .foreign kind _ => kind = .bigint
  | .bigint, _ => false
  | .date, .foreign (.date valid) _ => valid
  | .date, _ => false
  | kind, value => kind.is value

/-- The primitive has a `decode` and an `encode` hook. -/
def PrimitiveKind.hasHooks (kind : PrimitiveKind) : Bool := kind = .bigint || kind = .date

/-- The value that a `decode` hook makes. -/
def PrimitiveKind.decoded (kind : PrimitiveKind) (identity : ℕ) : Value :=
  if kind = .bigint then .foreign .bigint identity else .foreign (.date true) identity

/-- `matchesEnum`. -/
def matchesEnum (values : List EnumValue) (value : Value) : Bool :=
  values.any (fun v => sameValueZero v.toValue value)

/-- `map.get`. -/
def mapGet {α : Type} (map : List (LiteralValue × α)) (value : Value) : Option α :=
  (map.find? (fun p => sameValueZero p.1.toValue value)).map Prod.snd

/-! ### What the host answers -/

/-- The code that is not of the package: getters of shapes, accessors of values, and the
functions of the platform that the hooks of primitives call. -/
structure Host (ε : Type) where
  /-- A getter of a shape; a value that is no struct counts as thrown. -/
  shapeGetter : ℕ → Except ε RuntimeStruct
  /-- A getter of a property of a value. -/
  accessor : ℕ → Except ε Value
  /-- The `encode` hook of a primitive that has one. -/
  encode : PrimitiveKind → Value → Except ε Value
  /-- The `decode` hook of a primitive that has one: the bigint or the date of a value, unless the
  value is refused. -/
  decode : PrimitiveKind → Value → Except ε (Option ℕ)

variable {ε : Type}

/-- The fields of a shape as the resolved shape lists them, which is built key by key. -/
def shapeEntries {α : Type} (shape : List (JsString × α)) : List (JsString × α) :=
  OwnOrder.ownOrder (shape.foldl (fun output p => JsMap.put p.1 p.2 output) [])

/-- The struct of a field. -/
def Host.field (host : Host ε) : Field RuntimeStruct → Except (Thrown ε) RuntimeStruct
  | .declared struct => .ok struct
  | .getter identity => (host.shapeGetter identity).mapError .host

/-- `resolveObjectShape`: the fields in the order of the keys of the shape. -/
def resolveObjectShape (host : Host ε) (shape : List (JsString × Field RuntimeStruct)) :
    Except (Thrown ε) (List (JsString × RuntimeStruct)) :=
  (shapeEntries shape).mapM (fun p => do return (p.1, ← host.field p.2))

/-- A field of an object with the key that carries it outside. -/
structure ResolvedStructField where
  key : JsString
  struct : RuntimeStruct
  wireKey : JsString

/-- `resolveStructFields`. -/
def resolveStructFields (host : Host ε) (shape : List (JsString × Field RuntimeStruct)) :
    Except (Thrown ε) (List ResolvedStructField) := do
  let fields := (← resolveObjectShape host shape).map
    (fun p => ResolvedStructField.mk p.1 p.2 (p.2.aliasName.getD p.1))
  if (fields.map ResolvedStructField.wireKey).Nodup then return fields
  else throw .duplicateWireKey

/-- The value of a property that is read. -/
def Host.slot (host : Host ε) : Slot → Except (Thrown ε) Value
  | .data value => .ok value
  | .accessor getter => (host.accessor getter).mapError .host

/-- `container[key]`. -/
def Host.get (host : Host ε) (container : Container) (key : JsString) :
    Except (Thrown ε) Value :=
  match container.ownProperty key with
  | some property => host.slot property.slot
  | none => .ok .undefined

end Struct
