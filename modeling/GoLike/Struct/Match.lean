import GoLike.Lib.CallStack
import GoLike.Struct.Definition

/-!
# Matching a value against a struct

Whether a struct accepts a value is found on a stack of frames. The containers that are entered
on the way are kept in the graph of the current call, and every frame leaves what it entered
when it is popped. So a match leaves the graph as it found it, and each option of a union is
judged by itself.
-/

namespace Struct

open CallStack

variable {ε : Type}

/-! ### Frames -/

/-- What a frame goes through once it is opened. -/
inductive MatchWalk where
  | closed
  | array (address : ℕ) (item : RuntimeStruct)
  | tuple (address : ℕ) (items : List RuntimeStruct)
  | object (address : ℕ) (shape : List (JsString × RuntimeStruct))
  | record (address : ℕ) (keys : List JsString) (item : RuntimeStruct)
  | or (options : List RuntimeStruct)
  | intersection (options : List RuntimeStruct)

/-- A frame of a match. -/
structure MatchFrame where
  struct : RuntimeStruct
  value : Value
  enter : Bool
  walk : MatchWalk
  index : ℕ

/-- A frame that is not opened. -/
def matchFrame (struct : RuntimeStruct) (value : Value) (enter : Bool) : MatchFrame :=
  ⟨struct, value, enter, .closed, 0⟩

/-- The frame is not opened. -/
def MatchFrame.isClosed (frame : MatchFrame) : Bool :=
  match frame.walk with
  | .closed => true
  | _ => false

/-- The mode of the frame is "some". -/
def MatchFrame.isSome (frame : MatchFrame) : Bool :=
  match frame.walk with
  | .or _ => true
  | _ => false

/-- What comes of opening a frame. -/
inductive Opened where
  | answers (answer : Bool)
  /-- The option of a discriminated union takes the place of the union. -/
  | redirects (target : RuntimeStruct)
  | walks (walk : MatchWalk)

/-- The address of an array. -/
def arrayAddress (heap : Heap) : Value → Option ℕ
  | .container address => if (heap address).isArray then some address else none
  | _ => none

/-- The address of a plain object. -/
def plainAddress (heap : Heap) : Value → Option ℕ
  | .container address => if (heap address).isPlain then some address else none
  | _ => none

/-- `null` is left to the options, or to the literal. -/
def delegatesNull (struct : RuntimeStruct) : Bool :=
  match struct.definition with
  | .literal value => value = .null
  | .intersection .. => true
  | .or .. => true
  | _ => false

/-- `null` is accepted by the struct itself. -/
def acceptsNull (struct : RuntimeStruct) : Bool :=
  match struct.definition with
  | .primitive kind => kind = .null || struct.nullable
  | _ => struct.nullable

/-- The part of `openMatch` that goes by the definition. -/
def openDefinition (host : Host ε) (heap : Heap) (struct : RuntimeStruct) (value : Value) :
    Except (Thrown ε) Opened :=
  match struct.definition with
  | .any | .unknown => .ok (.answers true)
  | .primitive kind => .ok (.answers (kind.runtimeIs value))
  | .literal expected => .ok (.answers (objectIs value expected.toValue))
  | .enum values => .ok (.answers (matchesEnum values value))
  | .array item =>
      match arrayAddress heap value with
      | none => .ok (.answers false)
      | some address => .ok (.walks (.array address item))
  | .tuple items =>
      match arrayAddress heap value with
      | none => .ok (.answers false)
      | some address =>
          if (heap address).length ≠ items.length then .ok (.answers false)
          else .ok (.walks (.tuple address items))
  | .object shape =>
      match plainAddress heap value with
      | none => .ok (.answers false)
      | some address => do
          let shape ← resolveObjectShape host shape
          return .walks (.object address shape)
  | .record item =>
      match plainAddress heap value with
      | none => .ok (.answers false)
      | some address => .ok (.walks (.record address (heap address).keys item))
  | .or options _ => .ok (.walks (.or options))
  | .intersection _ options => .ok (.walks (.intersection options))
  | .discriminatedUnion discriminator _ map _ =>
      match plainAddress heap value with
      | none => .ok (.answers false)
      | some address =>
          if (heap address).hasOwn discriminator then do
            let tag ← host.get (heap address) discriminator
            match mapGet map tag with
            | none => return .answers false
            | some target => return .redirects target
          else .ok (.answers false)

/-- `openMatch`, after the value is entered. -/
def openMatch (host : Host ε) (heap : Heap) (struct : RuntimeStruct) (value : Value) :
    Except (Thrown ε) Opened :=
  if value = .null && acceptsNull struct then .ok (.answers true)
  else if value = .null && !delegatesNull struct then .ok (.answers false)
  else if value = .undefined then .ok (.answers struct.optional)
  else openDefinition host heap struct value

/-! ### Children -/

/-- What a frame matches next. -/
inductive MatchNext where
  | rejects
  | done
  | child (index : ℕ) (enter : Bool) (struct : RuntimeStruct) (value : Value)

/-- The first index from `index` on, of at most so many, that is an own property. -/
def presentIndex (container : Container) : ℕ → ℕ → Option ℕ
  | 0, _ => none
  | n + 1, index =>
      if container.hasOwn (.ofNat index) then some index else presentIndex container n (index + 1)

/-- The first field from `index` on whose key the object has. -/
def nextField (host : Host ε) (container : Container) :
    ℕ → List (JsString × RuntimeStruct) → Except (Thrown ε) MatchNext
  | _, [] => .ok .done
  | index, (key, field) :: rest =>
      if container.hasOwn key then do
        let value ← host.get container key
        return .child index true field value
      else if field.optional then nextField host container (index + 1) rest
      else .ok .rejects

/-- `nextMatchChild`. -/
def nextMatchChild (host : Host ε) (heap : Heap) (frame : MatchFrame) :
    Except (Thrown ε) MatchNext :=
  match frame.walk with
  | .closed => .ok .done
  | .array address item =>
      let container := heap address
      match presentIndex container (container.length - frame.index) frame.index with
      | none => .ok .done
      | some index => do
          let value ← host.get container (.ofNat index)
          return .child index true item value
  | .tuple address items =>
      let container := heap address
      match presentIndex container (items.length - frame.index) frame.index with
      | none => .ok .done
      | some index =>
          match items[index]? with
          | none => .ok .done
          | some item => do
              let value ← host.get container (.ofNat index)
              return .child index true item value
  | .object address shape => nextField host (heap address) frame.index (shape.drop frame.index)
  | .record address keys item =>
      match keys[frame.index]? with
      | none => .ok .done
      | some key => do
          let value ← host.get (heap address) key
          return .child frame.index true item value
  | .or options | .intersection options =>
      match options[frame.index]? with
      | none => .ok .done
      | some option => .ok (.child frame.index false option frame.value)

/-- The frame matches its next child. -/
def proceedMatch (host : Host ε) (heap : Heap) (frame : MatchFrame) :
    FrameTurn MatchFrame Bool (Thrown ε) :=
  match nextMatchChild host heap frame with
  | .error e => .throws e
  | .ok .rejects => .returns false
  | .ok .done => .returns (!frame.isSome)
  | .ok (.child index enter struct value) =>
      .calls { frame with index := index } (matchFrame struct value enter)

/-- A turn of the loop of `runMatch`, which gets the answer for the child. -/
def matchTurn (host : Host ε) (heap : Heap) (frame : MatchFrame) :
    Option Bool → FrameTurn MatchFrame Bool (Thrown ε)
  | some answer =>
      -- one accepting option is enough for "some", and one rejecting child for the others
      if answer = frame.isSome then .returns answer
      else proceedMatch host heap { frame with index := frame.index + 1 }
  | none =>
      if frame.isClosed then
        match openMatch host heap frame.struct frame.value with
        | .error e => .throws e
        | .ok (.answers answer) => .returns answer
        | .ok (.redirects target) => .goesOn { frame with struct := target }
        | .ok (.walks walk) => proceedMatch host heap { frame with walk := walk }
      else proceedMatch host heap frame

/-- The traversal of `runMatch`. -/
def matching (host : Host ε) (heap : Heap) :
    Traversal MatchFrame Value (List EncodeGraph) Bool (Thrown ε) where
  claim frame := if frame.enter && frame.isClosed then some frame.value else none
  enter := enterEncode heap
  leave := leaveEncode heap
  acts g frame last g' turn := g' = g ∧ turn = matchTurn host heap frame last

/-- A match leaves what it enters. -/
theorem matching_balanced (host : Host ε) (heap : Heap) :
  (matching host heap).Balanced
  := by
  constructor
  case leave_enter => exact leaveEncode_enterEncode
  case quiet =>
    intro g g' frame last turn hacts
    exact hacts.1

/-- `matchesRuntimeValue` answers, or throws, and leaves the graphs `graphs'`. -/
def MatchesRuntimeValue (host : Host ε) (heap : Heap) (graphs : List EncodeGraph)
    (struct : RuntimeStruct) (value : Value) (out : Except (Thrown ε) Bool)
    (graphs' : List EncodeGraph) : Prop :=
  (matching host heap).Runs graphs (matchFrame struct value false) out graphs'

/-! ### Options are judged by themselves -/

/-- The options are judged in order until one accepts or throws, each by a match of its own from
the graphs that the union found. -/
inductive JudgesOptions (host : Host ε) (heap : Heap) (graphs : List EncodeGraph)
    (value : Value) : List RuntimeStruct → Except (Thrown ε) Bool → Prop
  | none : JudgesOptions host heap graphs value [] (.ok false)
  | accepts {option : RuntimeStruct} {options : List RuntimeStruct}
      (h : MatchesRuntimeValue host heap graphs option value (.ok true) graphs) :
      JudgesOptions host heap graphs value (option :: options) (.ok true)
  | rejects {option : RuntimeStruct} {options : List RuntimeStruct} {out : Except (Thrown ε) Bool}
      (h : MatchesRuntimeValue host heap graphs option value (.ok false) graphs)
      (hrest : JudgesOptions host heap graphs value options out) :
      JudgesOptions host heap graphs value (option :: options) out
  | throws {option : RuntimeStruct} {options : List RuntimeStruct} {e : Thrown ε}
      (h : MatchesRuntimeValue host heap graphs option value (.error e) graphs) :
      JudgesOptions host heap graphs value (option :: options) (.error e)

variable {host : Host ε} {heap : Heap}

variable {g : List EncodeGraph}

/-- A frame that is opened claims nothing. -/
theorem opens_of_opened {frame : MatchFrame} (h : frame.isClosed = false) (held : Option Value) :
  (matching host heap).opens g frame held = .ok (g, held)
  := by
  cases held with
  | some k => rfl
  | none => simp [Traversal.opens, matching, h]

variable {g' : List EncodeGraph} {out : Except (Thrown ε) Bool}

/-- A frame that is opened goes on as its turn says. -/
theorem ends_opened {frame : MatchFrame} (h : frame.isClosed = false) {held : Option Value}
    {last : Option Bool} :
  (matching host heap).Ends g frame held last out g' ↔
    Traversal.Follows (matching host heap) g held out g' (matchTurn host heap frame last)
  := by
  rw [Traversal.ends_iff, opens_of_opened h]
  constructor
  · rintro (⟨e, heq, -⟩ | ⟨g₁, held', g₂, turn, heq, ⟨rfl, rfl⟩, hfollows⟩)
    · cases heq
    · cases heq
      exact hfollows
  · intro hfollows
    exact .inr ⟨g, held, g, _, rfl, ⟨rfl, rfl⟩, hfollows⟩

variable {struct : RuntimeStruct} {value : Value}

/-- A match that ends leaves the graphs as it found them. -/
theorem MatchesRuntimeValue.restores (h : MatchesRuntimeValue host heap g struct value out g') :
  g' = g
  := Traversal.restores (matching_balanced host heap) h

/-- The frame of a union judges its options from its index on. -/
theorem follows_or {enter : Bool} {options : List RuntimeStruct} {held : Option Value}
    (rest : List RuntimeStruct) (index : ℕ) (hrest : options.drop index = rest) :
  Traversal.Follows (matching host heap) g held out g'
      (proceedMatch host heap ⟨struct, value, enter, .or options, index⟩) ↔
    JudgesOptions host heap g value rest out ∧ g' = (matching host heap).release g held
  := by
  induction rest generalizing index with
  | nil =>
      have hnone : options[index]? = none := by
        rw [← List.head?_drop, hrest, List.head?_nil]
      simp only [proceedMatch, nextMatchChild, hnone, MatchFrame.isSome, Traversal.Follows]
      constructor
      · rintro ⟨rfl, rfl⟩
        exact ⟨.none, rfl⟩
      · rintro ⟨hjudges, rfl⟩
        cases hjudges
        exact ⟨rfl, rfl⟩
  | cons option rest ih =>
      have hsome : options[index]? = some option := by
        rw [← List.head?_drop, hrest, List.head?_cons]
      have htail : options.drop (index + 1) = rest := by
        rw [← List.tail_drop, hrest, List.tail_cons]
      simp only [proceedMatch, nextMatchChild, hsome, Traversal.Follows]
      constructor
      · rintro (⟨g₁, answer, hruns, hends⟩ | ⟨g₁, e, hruns, rfl, rfl⟩)
        · obtain rfl := MatchesRuntimeValue.restores hruns
          rw [ends_opened rfl] at hends
          cases answer with
          | true =>
              obtain ⟨rfl, rfl⟩ := hends
              exact ⟨.accepts hruns, rfl⟩
          | false =>
              obtain ⟨hjudges, rfl⟩ := (ih (index + 1) htail).1 hends
              exact ⟨.rejects hruns hjudges, rfl⟩
        · obtain rfl := MatchesRuntimeValue.restores hruns
          exact ⟨.throws hruns, rfl⟩
      · rintro ⟨hjudges, rfl⟩
        cases hjudges with
        | accepts hruns =>
            left
            refine ⟨g, true, hruns, ?_⟩
            rw [ends_opened rfl]
            exact ⟨rfl, rfl⟩
        | rejects hruns hjudges =>
            left
            refine ⟨g, false, hruns, ?_⟩
            rw [ends_opened rfl]
            exact (ih (index + 1) htail).2 ⟨hjudges, rfl⟩
        | throws hruns => exact .inr ⟨g, _, hruns, rfl, rfl⟩

/-- A union that does not answer by itself judges its options by themselves, from the graphs in
which its value is entered. -/
theorem runs_or {enter : Bool} {options : List RuntimeStruct} {uniform : Bool}
    (hdefinition : struct.definition = .or options uniform) (hundefined : value ≠ .undefined)
    (hnull : value = .null → struct.nullable = false) :
  (matching host heap).Runs g (matchFrame struct value enter) out g' ↔
    ((∃ e, enter = true ∧ enterEncode heap g value = .error e ∧ out = .error e) ∨
      ∃ g₁, (if enter then enterEncode (ε := ε) heap g value else .ok g) = .ok g₁ ∧
        JudgesOptions host heap g₁ value options out) ∧ g' = g
  := by
  have hopen : openMatch host heap struct value = .ok (.walks (.or options)) := by
    have haccepts : (value = .null && acceptsNull struct) = false := by
      by_cases hvalue : value = .null
      · simp [acceptsNull, hdefinition, hnull hvalue]
      · simp [hvalue]
    have hdelegates : delegatesNull struct = true := by simp [delegatesNull, hdefinition]
    simp [openMatch, haccepts, hdelegates, hundefined, openDefinition, hdefinition]
  have hturn : matchTurn host heap (matchFrame struct value enter) none =
      proceedMatch host heap ⟨struct, value, enter, .or options, 0⟩ := by
    simp [matchTurn, matchFrame, MatchFrame.isClosed, hopen]
  constructor
  · intro hruns
    refine ⟨?_, Traversal.restores (matching_balanced host heap) hruns⟩
    obtain ⟨e, hopens, rfl, -⟩ | ⟨g₁, held', g₂, turn, hopens, ⟨rfl, rfl⟩, hfollows⟩ :=
      Traversal.ends_iff.1 hruns
    · left
      cases enter with
      | false => simp [Traversal.opens, matching, matchFrame] at hopens
      | true =>
          refine ⟨e, rfl, ?_, rfl⟩
          cases henter : enterEncode (ε := ε) heap g value with
          | error e' =>
              simp [Traversal.opens, matching, matchFrame, MatchFrame.isClosed, henter] at hopens
              rw [hopens]
          | ok g₁ =>
              simp [Traversal.opens, matching, matchFrame, MatchFrame.isClosed, henter] at hopens
    · right
      rw [hturn] at hfollows
      obtain ⟨hjudges, -⟩ := (follows_or options 0 rfl).1 hfollows
      refine ⟨g₂, ?_, hjudges⟩
      cases enter with
      | false =>
          simp only [Traversal.opens, matching, matchFrame] at hopens
          cases hopens
          rfl
      | true =>
          cases henter : enterEncode (ε := ε) heap g value with
          | error e' =>
              simp [Traversal.opens, matching, matchFrame, MatchFrame.isClosed, henter] at hopens
          | ok g₁ =>
              simp [Traversal.opens, matching, matchFrame, MatchFrame.isClosed, henter] at hopens
              simp [hopens.1]
  · rintro ⟨⟨e, rfl, henter, rfl⟩ | ⟨g₁, henter, hjudges⟩, rfl⟩
    · apply Traversal.ends_iff.2
      left
      refine ⟨e, ?_, rfl, rfl⟩
      simp [Traversal.opens, matching, matchFrame, MatchFrame.isClosed, henter]
    · apply Traversal.ends_iff.2
      right
      cases enter with
      | false =>
          cases henter
          refine ⟨g', none, g', _, rfl, ⟨rfl, rfl⟩, ?_⟩
          rw [hturn]
          exact (follows_or options 0 rfl).2 ⟨hjudges, rfl⟩
      | true =>
          simp only [if_true] at henter
          refine ⟨g₁, some value, g₁, _, ?_, ⟨rfl, rfl⟩, ?_⟩
          · simp [Traversal.opens, matching, matchFrame, MatchFrame.isClosed, henter]
          · rw [hturn]
            exact (follows_or options 0 rfl).2 ⟨hjudges, (leaveEncode_enterEncode henter).symm⟩

end Struct
