import GoLike.Struct.Built
import GoLike.Struct.Match

/-!
# Encoding a value

A value is encoded by its struct on a stack of frames, as it is matched. A union first asks the
match which of its options accept the value, and then takes the place of the option, or encodes
the value by each of several options, which must agree. Hooks and accessors may throw at any
time; `encoding_balanced` says that the graphs are left as they were found all the same.
-/

namespace Struct

open CallStack

variable {ε : Type}

/-! ### Frames -/

/-- What a frame is about once it is opened, with what is built so far. -/
inductive EncodePhase where
  | value
  | array (address : ℕ) (item : RuntimeStruct) (output : List (Option Built))
  | tuple (address : ℕ) (items : List RuntimeStruct) (output : List (Option Built))
  | record (address : ℕ) (keys : List JsString) (item : RuntimeStruct)
      (output : List (JsString × Built))
  | object (address : ℕ) (fields : List ResolvedStructField) (output : List (JsString × Built))
  | ambiguous (candidates : List RuntimeStruct) (first : Built)
  | intersection (options : List RuntimeStruct) (sides : List Built)
  | objectSides (options : List RuntimeStruct) (output : Built)

/-- A frame of an encoding. -/
structure EncodeFrame where
  struct : RuntimeStruct
  value : Value
  enter : Bool
  phase : EncodePhase
  index : ℕ

/-- A frame that is not opened. -/
def encodeFrame (struct : RuntimeStruct) (value : Value) (enter : Bool) : EncodeFrame :=
  ⟨struct, value, enter, .value, 0⟩

/-- The frame is not opened. -/
def EncodeFrame.isClosed (frame : EncodeFrame) : Bool :=
  match frame.phase with
  | .value => true
  | _ => false

/-- An option takes the place of the union, whose value has been entered. -/
def adoptEncode (frame : EncodeFrame) (next : RuntimeStruct) : EncodeFrame :=
  { frame with struct := next, enter := false, phase := .value, index := 0 }

/-! ### Opening -/

/-- What comes of opening a frame. -/
inductive EncodeOpened where
  | finishes (output : Built)
  | adopts (next : RuntimeStruct)
  | begins (phase : EncodePhase)
  /-- The options of a union are to be matched. -/
  | chooses (options : List RuntimeStruct) (uniformIdentityEncode : Bool)

/-- The fields that are encoded: with their aliases, or with their keys. -/
def encodedFields (host : Host ε) (aliased : Bool)
    (shape : List (JsString × Field RuntimeStruct)) :
    Except (Thrown ε) (List ResolvedStructField) :=
  if aliased then resolveStructFields host shape
  else return (← resolveObjectShape host shape).map (fun p => ⟨p.1, p.2, p.1⟩)

/-- The part of `openEncode` that goes by the definition. -/
def openEncodeDefinition (host : Host ε) (heap : Heap) (aliased : Bool) (struct : RuntimeStruct)
    (value : Value) : Except (Thrown ε) EncodeOpened :=
  match struct.definition with
  | .any | .unknown => do
      assertPortableValueGraph heap value
      return .finishes (.given value)
  | .literal _ | .enum _ => .ok (.finishes (.given value))
  | .primitive kind =>
      if kind.hasHooks then
        ((host.encode kind value).mapError .host).map (fun output => .finishes (.given output))
      else .ok (.finishes (.given value))
  | .array item =>
      match arrayAddress heap value with
      | none => .ok (.finishes (.given value))
      | some address =>
          .ok (.begins (.array address item (List.replicate (heap address).length none)))
  | .tuple items =>
      match arrayAddress heap value with
      | none => .ok (.finishes (.given value))
      | some address =>
          .ok (.begins (.tuple address items (List.replicate (heap address).length none)))
  | .record item =>
      match plainAddress heap value with
      | none => .ok (.finishes (.given value))
      | some address => .ok (.begins (.record address (heap address).keys item []))
  | .object shape =>
      match plainAddress heap value with
      | none => .ok (.finishes (.given value))
      | some address => do
          let fields ← encodedFields host aliased shape
          return .begins (.object address fields [])
  | .or options uniformIdentityEncode => .ok (.chooses options uniformIdentityEncode)
  | .discriminatedUnion discriminator _ map _ =>
      match plainAddress heap value with
      | none => .ok (.finishes (.given value))
      | some address =>
          if (heap address).hasOwn discriminator then do
            let tag ← host.get (heap address) discriminator
            match mapGet map tag with
            | none => return .finishes (.given value)
            | some target => return .adopts target
          else .ok (.finishes (.given value))
  | .intersection objectSides options =>
      if !objectSides then .ok (.begins (.intersection options []))
      else if isPlainObject heap value then .ok (.begins (.objectSides options (.object [])))
      else .ok (.finishes (.given value))

/-- `openEncode`, after the value is entered. -/
def openEncode (host : Host ε) (heap : Heap) (aliased : Bool) (struct : RuntimeStruct)
    (value : Value) : Except (Thrown ε) EncodeOpened :=
  if value = .null && acceptsNull struct then .ok (.finishes (.given .null))
  else if value = .undefined && struct.optional then .ok (.finishes (.given .undefined))
  else openEncodeDefinition host heap aliased struct value

/-! ### Children -/

/-- What a frame does once it is opened. -/
inductive EncodeNext where
  | done (output : Built)
  | goesOn (phase : EncodePhase) (index : ℕ)
  | child (index : ℕ) (enter : Bool) (struct : RuntimeStruct) (value : Value)

/-- The first field from `index` on that is encoded, with its value. -/
def nextEncodedField (host : Host ε) (container : Container) (aliased : Bool) :
    ℕ → List ResolvedStructField → Except (Thrown ε) (Option (ℕ × RuntimeStruct × Value))
  | _, [] => .ok none
  | index, field :: rest =>
      if container.hasOwn field.key then do
        let value ← host.get container field.key
        if aliased && value = .undefined then
          nextEncodedField host container aliased (index + 1) rest
        else return some (index, field.struct, value)
      else nextEncodedField host container aliased (index + 1) rest

/-- `stepEncode`. -/
def stepEncode (host : Host ε) (heap : Heap) (aliased : Bool) (frame : EncodeFrame) :
    Except (Thrown ε) EncodeNext :=
  match frame.phase with
  | .value => .ok (.done (.given .undefined))
  | .array address item output =>
      let container := heap address
      match presentIndex container (container.length - frame.index) frame.index with
      | none => .ok (.done (.array output))
      | some index => do
          let value ← host.get container (.ofNat index)
          return .child index true item value
  | .tuple address items output =>
      let container := heap address
      match presentIndex container (container.length - frame.index) frame.index with
      | none => .ok (.done (.array output))
      | some index => do
          let value ← host.get container (.ofNat index)
          match items[index]? with
          | none =>
              let output := output.set index (some (.given value))
              return .goesOn (.tuple address items output) (index + 1)
          | some item => return .child index true item value
  | .record address keys item output =>
      match keys[frame.index]? with
      | none => .ok (.done (.object output))
      | some key => do
          let value ← host.get (heap address) key
          return .child frame.index true item value
  | .object address fields output => do
      match ← nextEncodedField host (heap address) aliased frame.index
          (fields.drop frame.index) with
      | none => return .done (.object output)
      | some (index, struct, value) => return .child index true struct value
  | .ambiguous candidates first =>
      match candidates[frame.index]? with
      | none => .ok (.done first)
      | some candidate => .ok (.child frame.index false candidate frame.value)
  | .intersection options sides =>
      match options[frame.index]? with
      | none => return .done (← foldIntersectionResults host heap sides frame.value true)
      | some option => .ok (.child frame.index false option frame.value)
  | .objectSides options output =>
      match options[frame.index]? with
      | none => .ok (.done output)
      | some option => .ok (.child frame.index false option frame.value)

/-! ### Results of children -/

/-- What comes of the result of a child. -/
inductive EncodeAccepted where
  | goesOn (phase : EncodePhase)
  /-- The result is to be compared with that of the first option. -/
  | compares (first current : RuntimeStruct) (left right : Built)

/-- `acceptEncode`. -/
def acceptEncode (host : Host ε) (heap : Heap) (frame : EncodeFrame) (produced : Built) :
    Except (Thrown ε) EncodeAccepted :=
  match frame.phase with
  | .value => .ok (.goesOn .value)
  | .array address item output =>
      .ok (.goesOn (.array address item (output.set frame.index (some produced))))
  | .tuple address items output =>
      .ok (.goesOn (.tuple address items (output.set frame.index (some produced))))
  | .record address keys item output =>
      let key := (keys[frame.index]?).getD .empty
      .ok (.goesOn (.record address keys item (setProperty output key produced)))
  | .object address fields output => do
      let key := ((fields[frame.index]?).map ResolvedStructField.wireKey).getD .empty
      let existing := (JsMap.lookup key output).getD (.given .undefined)
      let merged ← mergePlainObjects host heap existing produced
      return .goesOn (.object address fields (setProperty output key merged))
  | .ambiguous candidates first =>
      match frame.index, candidates[0]?, candidates[frame.index]? with
      | _ + 1, some firstStruct, some current =>
          .ok (.compares firstStruct current first produced)
      | _, _, _ => .ok (.goesOn (.ambiguous candidates produced))
  | .intersection options sides => .ok (.goesOn (.intersection options (sides ++ [produced])))
  | .objectSides options output => do
      let merged ← mergePlainObjects host heap output produced
      return .goesOn (.objectSides options merged)

/-- `getComparableEncodedValue`. -/
def comparableEncodedValue (aliased : Bool) (struct : RuntimeStruct) (value : Built) : Built :=
  match aliased, struct.aliasName, struct.definition with
  | true, some name, .array _ | true, some name, .object _ =>
      if name.isEmpty then value
      else .object [(.ofString "alias", .given (.string name)), (.ofString "value", value)]
  | _, _, _ => value

/-- The comparisons of a list are made in order until one fails. -/
def everySame {α : Type} (compare : α → Option (Except (Thrown ε) Bool)) :
    List α → Option (Except (Thrown ε) Bool)
  | [] => some (.ok true)
  | a :: rest =>
      match compare a with
      | some (.ok true) => everySame compare rest
      | answer => answer

/-- `sameWireValue`, to a depth; `none` when the depth does not suffice. -/
def sameWireValue (host : Host ε) (heap : Heap) :
    ℕ → Built → Built → Option (Except (Thrown ε) Bool)
  | 0, _, _ => none
  | n + 1, left, right =>
      let compare (read : Built → Except (Thrown ε) Built) : Option (Except (Thrown ε) Bool) :=
        match read left, read right with
        | .ok l, .ok r => sameWireValue host heap n l r
        | .error e, _ | _, .error e => some (.error e)
      if left.is right then some (.ok true)
      else if left.isArray heap || right.isArray heap then
        if !(left.isArray heap && right.isArray heap && left.length heap = right.length heap) then
          some (.ok false)
        else
          -- `every` passes over the holes of the array
          everySame (fun index => compare (Built.at? host heap index))
            ((List.range (left.length heap)).filter (fun index => left.hasIndex heap index))
      else if !(left.isPlainObject heap && right.isPlainObject heap) then some (.ok false)
      else if (left.keys heap).length ≠ (right.keys heap).length then some (.ok false)
      else
        everySame (fun key =>
          if right.hasOwn heap key then compare (Built.get host heap key)
          else some (.ok false)) (left.keys heap)

/-! ### The choice of a union -/

/-- `selectUnionOptions`: the options that accept the value, in order. -/
inductive SelectsUnionOptions (host : Host ε) (heap : Heap) (value : Value) :
    List EncodeGraph → List RuntimeStruct → Except (Thrown ε) (List RuntimeStruct) →
      List EncodeGraph → Prop
  | nil {g : List EncodeGraph} : SelectsUnionOptions host heap value g [] (.ok []) g
  | accepts {g g₁ g₂ : List EncodeGraph} {option : RuntimeStruct}
      {options selected : List RuntimeStruct}
      (h : MatchesRuntimeValue host heap g option value (.ok true) g₁)
      (hrest : SelectsUnionOptions host heap value g₁ options (.ok selected) g₂) :
      SelectsUnionOptions host heap value g (option :: options) (.ok (option :: selected)) g₂
  | rejects {g g₁ g₂ : List EncodeGraph} {option : RuntimeStruct}
      {options : List RuntimeStruct} {out : Except (Thrown ε) (List RuntimeStruct)}
      (h : MatchesRuntimeValue host heap g option value (.ok false) g₁)
      (hrest : SelectsUnionOptions host heap value g₁ options out g₂) :
      SelectsUnionOptions host heap value g (option :: options) out g₂
  | fails {g g₁ g₂ : List EncodeGraph} {option : RuntimeStruct} {options : List RuntimeStruct}
      {e : Thrown ε} (h : MatchesRuntimeValue host heap g option value (.ok true) g₁)
      (hrest : SelectsUnionOptions host heap value g₁ options (.error e) g₂) :
      SelectsUnionOptions host heap value g (option :: options) (.error e) g₂
  | throws {g g₁ : List EncodeGraph} {option : RuntimeStruct} {options : List RuntimeStruct}
      {e : Thrown ε} (h : MatchesRuntimeValue host heap g option value (.error e) g₁) :
      SelectsUnionOptions host heap value g (option :: options) (.error e) g₁

/-- The first option that accepts the value, if there is one. -/
inductive SelectsFirst (host : Host ε) (heap : Heap) (value : Value) :
    List EncodeGraph → List RuntimeStruct → Except (Thrown ε) (List RuntimeStruct) →
      List EncodeGraph → Prop
  | nil {g : List EncodeGraph} : SelectsFirst host heap value g [] (.ok []) g
  | accepts {g g₁ : List EncodeGraph} {option : RuntimeStruct} {options : List RuntimeStruct}
      (h : MatchesRuntimeValue host heap g option value (.ok true) g₁) :
      SelectsFirst host heap value g (option :: options) (.ok [option]) g₁
  | rejects {g g₁ g₂ : List EncodeGraph} {option : RuntimeStruct}
      {options : List RuntimeStruct} {out : Except (Thrown ε) (List RuntimeStruct)}
      (h : MatchesRuntimeValue host heap g option value (.ok false) g₁)
      (hrest : SelectsFirst host heap value g₁ options out g₂) :
      SelectsFirst host heap value g (option :: options) out g₂
  | throws {g g₁ : List EncodeGraph} {option : RuntimeStruct} {options : List RuntimeStruct}
      {e : Thrown ε} (h : MatchesRuntimeValue host heap g option value (.error e) g₁) :
      SelectsFirst host heap value g (option :: options) (.error e) g₁

/-- The structs of a list, each object once. -/
def uniqueStructs : List RuntimeStruct → List RuntimeStruct
  | [] => []
  | struct :: structs =>
      struct :: (uniqueStructs structs).filter (fun s => s.identity ≠ struct.identity)

/-- `chooseUnion`, once the options are matched. -/
def chosenUnion (frame : EncodeFrame) :
    Except (Thrown ε) (List RuntimeStruct) → FrameTurn EncodeFrame Built (Thrown ε)
  | .error e => .throws e
  | .ok selected =>
      match uniqueStructs selected with
      | [] => .returns (.given frame.value)
      | [option] => .goesOn (adoptEncode frame option)
      | unique => .goesOn { frame with phase := .ambiguous unique (.given .undefined), index := 0 }

/-- The frame does what its opening or its step says. -/
def encodeTurn (frame : EncodeFrame) : EncodeNext → FrameTurn EncodeFrame Built (Thrown ε)
  | .done output => .returns output
  | .goesOn phase index => .goesOn { frame with phase := phase, index := index }
  | .child index enter struct value =>
      .calls { frame with index := index } (encodeFrame struct value enter)

/-- A turn of the loop of `encodeValue`. A result of a child is accepted in a turn of its own. -/
inductive EncodeActs (host : Host ε) (heap : Heap) (aliased : Bool) :
    List EncodeGraph → EncodeFrame → Option Built → List EncodeGraph →
      FrameTurn EncodeFrame Built (Thrown ε) → Prop
  | accepts {g : List EncodeGraph} {frame : EncodeFrame} {produced : Built} {phase : EncodePhase}
      (h : acceptEncode host heap frame produced = .ok (.goesOn phase)) :
      EncodeActs host heap aliased g frame (some produced) g
        (.goesOn { frame with phase := phase, index := frame.index + 1 })
  | acceptThrows {g : List EncodeGraph} {frame : EncodeFrame} {produced : Built} {e : Thrown ε}
      (h : acceptEncode host heap frame produced = .error e) :
      EncodeActs host heap aliased g frame (some produced) g (.throws e)
  | agrees {g : List EncodeGraph} {frame : EncodeFrame} {produced left right : Built}
      {first current : RuntimeStruct}
      (h : acceptEncode host heap frame produced = .ok (.compares first current left right))
      (n : ℕ) (hsame : sameWireValue host heap n (comparableEncodedValue aliased first left)
        (comparableEncodedValue aliased current right) = some (.ok true)) :
      EncodeActs host heap aliased g frame (some produced) g
        (.goesOn { frame with index := frame.index + 1 })
  | disagrees {g : List EncodeGraph} {frame : EncodeFrame} {produced left right : Built}
      {first current : RuntimeStruct}
      (h : acceptEncode host heap frame produced = .ok (.compares first current left right))
      (n : ℕ) (hsame : sameWireValue host heap n (comparableEncodedValue aliased first left)
        (comparableEncodedValue aliased current right) = some (.ok false)) :
      EncodeActs host heap aliased g frame (some produced) g (.throws .ambiguous)
  | compareThrows {g : List EncodeGraph} {frame : EncodeFrame} {produced left right : Built}
      {first current : RuntimeStruct} {e : Thrown ε}
      (h : acceptEncode host heap frame produced = .ok (.compares first current left right))
      (n : ℕ) (hsame : sameWireValue host heap n (comparableEncodedValue aliased first left)
        (comparableEncodedValue aliased current right) = some (.error e)) :
      EncodeActs host heap aliased g frame (some produced) g (.throws e)
  | openThrows {g : List EncodeGraph} {frame : EncodeFrame} {e : Thrown ε}
      (hclosed : frame.isClosed = true)
      (h : openEncode host heap aliased frame.struct frame.value = .error e) :
      EncodeActs host heap aliased g frame none g (.throws e)
  | finishes {g : List EncodeGraph} {frame : EncodeFrame} {output : Built}
      (hclosed : frame.isClosed = true)
      (h : openEncode host heap aliased frame.struct frame.value = .ok (.finishes output)) :
      EncodeActs host heap aliased g frame none g (.returns output)
  | adopts {g : List EncodeGraph} {frame : EncodeFrame} {next : RuntimeStruct}
      (hclosed : frame.isClosed = true)
      (h : openEncode host heap aliased frame.struct frame.value = .ok (.adopts next)) :
      EncodeActs host heap aliased g frame none g (.goesOn (adoptEncode frame next))
  | begins {g : List EncodeGraph} {frame : EncodeFrame} {phase : EncodePhase}
      (hclosed : frame.isClosed = true)
      (h : openEncode host heap aliased frame.struct frame.value = .ok (.begins phase)) :
      EncodeActs host heap aliased g frame none g (.goesOn { frame with phase := phase, index := 0 })
  | choosesFirst {g g' : List EncodeGraph} {frame : EncodeFrame} {options : List RuntimeStruct}
      {out : Except (Thrown ε) (List RuntimeStruct)} (hclosed : frame.isClosed = true)
      (h : openEncode host heap aliased frame.struct frame.value = .ok (.chooses options true))
      (hplain : aliased = false) (hselects : SelectsFirst host heap frame.value g options out g') :
      EncodeActs host heap aliased g frame none g' (chosenUnion frame out)
  | chooses {g g' : List EncodeGraph} {frame : EncodeFrame} {options : List RuntimeStruct}
      {uniform : Bool} {out : Except (Thrown ε) (List RuntimeStruct)}
      (hclosed : frame.isClosed = true)
      (h : openEncode host heap aliased frame.struct frame.value = .ok (.chooses options uniform))
      (hplain : aliased = true ∨ uniform = false)
      (hselects : SelectsUnionOptions host heap frame.value g options out g') :
      EncodeActs host heap aliased g frame none g' (chosenUnion frame out)
  | stepThrows {g : List EncodeGraph} {frame : EncodeFrame} {e : Thrown ε}
      (hopened : frame.isClosed = false)
      (h : stepEncode host heap aliased frame = .error e) :
      EncodeActs host heap aliased g frame none g (.throws e)
  | steps {g : List EncodeGraph} {frame : EncodeFrame} {next : EncodeNext}
      (hopened : frame.isClosed = false)
      (h : stepEncode host heap aliased frame = .ok next) :
      EncodeActs host heap aliased g frame none g (encodeTurn frame next)

/-- The traversal of `encodeValue`, with the keys of the fields or with their aliases. -/
def encoding (host : Host ε) (heap : Heap) (aliased : Bool) :
    Traversal EncodeFrame Value (List EncodeGraph) Built (Thrown ε) where
  claim frame := if frame.enter && frame.isClosed then some frame.value else none
  enter := enterEncode heap
  leave := leaveEncode heap
  acts := EncodeActs host heap aliased

variable {host : Host ε} {heap : Heap}

/-- Selecting the options that accept a value leaves the graphs alone. -/
theorem SelectsUnionOptions.restores {value : Value} {g g' : List EncodeGraph}
    {options : List RuntimeStruct} {out : Except (Thrown ε) (List RuntimeStruct)}
    (h : SelectsUnionOptions host heap value g options out g') :
  g' = g
  := by
  induction h with
  | nil => rfl
  | accepts h _ ih | rejects h _ ih | fails h _ ih => exact ih.trans h.restores
  | throws h => exact h.restores

theorem SelectsFirst.restores {value : Value} {g g' : List EncodeGraph}
    {options : List RuntimeStruct} {out : Except (Thrown ε) (List RuntimeStruct)}
    (h : SelectsFirst host heap value g options out g') :
  g' = g
  := by
  induction h with
  | nil => rfl
  | accepts h | throws h => exact h.restores
  | rejects h _ ih => exact ih.trans h.restores

/-- A turn leaves the graphs alone, also the turn of a union. -/
theorem encodeActs_quiet {aliased : Bool} {g g' : List EncodeGraph} {frame : EncodeFrame}
    {last : Option Built} {turn : FrameTurn EncodeFrame Built (Thrown ε)}
    (h : EncodeActs host heap aliased g frame last g' turn) :
  g' = g
  := by
  cases h with
  | choosesFirst hclosed h hplain hselects | chooses hclosed h hplain hselects =>
      exact hselects.restores
  | _ => rfl

/-- An encoding leaves what it enters. -/
theorem encoding_balanced (host : Host ε) (heap : Heap) (aliased : Bool) :
  (encoding host heap aliased).Balanced
  := by
  constructor
  case leave_enter => exact leaveEncode_enterEncode
  case quiet => exact encodeActs_quiet

/-- What the selection of the options says of an option. -/
def Judges (host : Host ε) (heap : Heap) (g : List EncodeGraph) (value : Value)
    (option : RuntimeStruct) (answer : Bool) : Prop :=
  MatchesRuntimeValue host heap g option value (.ok answer) g

/-- The options that are selected are those that accept the value, each by a match of its own
from the graphs that the union found. -/
theorem SelectsUnionOptions.judges {value : Value} {g g' : List EncodeGraph}
    {options selected : List RuntimeStruct}
    (h : SelectsUnionOptions host heap value g options (.ok selected) g') :
  ∃ answers, List.Forall₂ (Judges host heap g value) options answers ∧
    selected = ((options.zip answers).filter Prod.snd).map Prod.fst
  := by
  generalize hout : Except.ok selected = out at h
  induction h generalizing selected with
  | nil =>
      cases hout
      exact ⟨[], .nil, rfl⟩
  | accepts h hrest ih =>
      cases hout
      obtain rfl := h.restores
      obtain ⟨answers, hanswers, rfl⟩ := ih rfl
      exact ⟨true :: answers, .cons h hanswers, rfl⟩
  | rejects h hrest ih =>
      obtain rfl := h.restores
      obtain ⟨answers, hanswers, rfl⟩ := ih hout
      exact ⟨false :: answers, .cons h hanswers, rfl⟩
  | fails | throws => cases hout

end Struct
