import GoLike.Struct.Definition

/-!
# Values that are built

Parsing and encoding build new arrays and objects around values that are passed through. A new
container is not shared, so it equals no other one; a value that is passed through is compared as
it is. New objects list their properties in the order of `Object.keys`.
-/

namespace Struct

/-- A value that is passed through, or a new container. -/
inductive Built where
  | given (value : Value)
  /-- A new array, with its holes. -/
  | array (slots : List (Option Built))
  /-- A new object without a prototype. -/
  | object (properties : List (JsString × Built))

/-- `output[key] = value`. -/
def setProperty (properties : List (JsString × Built)) (key : JsString) (value : Built) :
    List (JsString × Built) :=
  OwnOrder.ownOrder (JsMap.put key value properties)

namespace Built

/-- The value is `undefined`. -/
def isUndefined : Built → Bool
  | given value => value = .undefined
  | _ => false

/-- `===`. -/
def strictEquals : Built → Built → Bool
  | given v, given w => Struct.strictEquals v w
  | _, _ => false

/-- `Object.is`. -/
def is : Built → Built → Bool
  | given v, given w => objectIs v w
  | _, _ => false

variable {ε : Type} (host : Host ε) (heap : Heap)

/-- `Array.isArray`. -/
def isArray : Built → Bool
  | given value => Struct.isArray heap value
  | array _ => true
  | object _ => false

/-- The value is a plain object. -/
def isPlainObject : Built → Bool
  | given value => Struct.isPlainObject heap value
  | array _ => false
  | object _ => true

/-- The length of an array. -/
def length : Built → ℕ
  | given (.container address) => (heap address).length
  | array slots => slots.length
  | _ => 0

/-- The array has an element at an index. -/
def hasIndex (index : ℕ) : Built → Bool
  | given (.container address) => (heap address).hasOwn (.ofNat index)
  | array slots => (slots[index]?.join).isSome
  | _ => false

/-- `array[index]`. -/
def at? (index : ℕ) : Built → Except (Thrown ε) Built
  | given (.container address) => (host.get (heap address) (.ofNat index)).map given
  | array slots => .ok ((slots[index]?.join).getD (given .undefined))
  | _ => .ok (given .undefined)

/-- `Object.keys`. -/
def keys : Built → List JsString
  | given (.container address) => (heap address).keys
  | object properties => properties.map Prod.fst
  | _ => []

/-- `Object.hasOwn`. -/
def hasOwn (key : JsString) : Built → Bool
  | given (.container address) => (heap address).hasOwn key
  | object properties => (JsMap.lookup key properties).isSome
  | _ => false

/-- `object[key]`. -/
def get (key : JsString) : Built → Except (Thrown ε) Built
  | given (.container address) => (host.get (heap address) key).map given
  | object properties => .ok ((JsMap.lookup key properties).getD (given .undefined))
  | _ => .ok (given .undefined)

end Built

variable {ε : Type} (host : Host ε) (heap : Heap)

/-! ### Merging -/

/-- The properties of a value are copied. -/
def copyProperties (existing : Built) : Except (Thrown ε) (List (JsString × Built)) :=
  existing.keys heap |>.foldlM (fun output key => do
    return setProperty output key (← existing.get host heap key)) []

/-- The properties of a value are merged into others. -/
def mergeProperties (merge : Built → Built → Except (Thrown ε) Built) (incoming : Built)
    (properties : List (JsString × Built)) : Except (Thrown ε) (List (JsString × Built)) :=
  incoming.keys heap |>.foldlM (fun output key => do
    let value ← incoming.get host heap key
    match JsMap.lookup key output with
    | some existing => return setProperty output key (← merge existing value)
    | none => return setProperty output key value) properties

/-- The elements of two arrays are merged. -/
def mergeElements (merge : Built → Built → Except (Thrown ε) Built) (existing incoming : Built) :
    Except (Thrown ε) (List (Option Built)) :=
  (List.range (existing.length heap)).mapM (fun index => do
    let element ← existing.at? host heap index
    return some (← merge element (← incoming.at? host heap index)))

/-- The body of `mergePlainObjects`; `merge` is the call of the next depth, if it is in the
limit. -/
def mergeBuilt (merge : Option (Built → Built → Except (Thrown ε) Built))
    (existing incoming : Built) : Except (Thrown ε) Built :=
  if existing.strictEquals incoming then .ok incoming
  else if existing.isArray heap || incoming.isArray heap then
    if !(existing.isArray heap && incoming.isArray heap) then .ok incoming
    else if existing.length heap ≠ incoming.length heap then .error .arrayLengths
    else
      match merge with
      | none => .error (.graph .depth)
      | some merge => return .array (← mergeElements host heap merge existing incoming)
  else if !(existing.isPlainObject heap && incoming.isPlainObject heap) then .ok incoming
  else
    match merge with
    | none => .error (.graph .depth)
    | some merge => do
        let output ← copyProperties host heap existing
        return .object (← mergeProperties host heap merge incoming output)

/-- `mergePlainObjects`, by the number of depths that are left. -/
def mergeWithin : ℕ → Built → Built → Except (Thrown ε) Built
  | 0 => mergeBuilt host heap none
  | n + 1 => mergeBuilt host heap (some (mergeWithin n))

/-- `mergePlainObjects`. -/
def mergePlainObjects (existing incoming : Built) : Except (Thrown ε) Built :=
  mergeWithin host heap PortableValueGraphDepthLimit existing incoming

/-- The loop of `foldIntersectionResults`. -/
def foldSides (source : Value) (skipPassthrough : Bool) :
    Option Built → Built → List Built → Except (Thrown ε) Built
  | accumulated, last, [] => .ok (accumulated.getD last)
  | accumulated, _, side :: sides =>
      if skipPassthrough && side.strictEquals (.given source) then
        foldSides source skipPassthrough accumulated side sides
      else
        match accumulated with
        | none => foldSides source skipPassthrough (some side) side sides
        | some accumulated => do
            let merged ← mergePlainObjects host heap accumulated side
            foldSides source skipPassthrough (some merged) side sides

/-- `foldIntersectionResults`. -/
def foldIntersectionResults (sides : List Built) (source : Value) (skipPassthrough : Bool) :
    Except (Thrown ε) Built :=
  foldSides host heap source skipPassthrough none (.given source) sides

end Struct
