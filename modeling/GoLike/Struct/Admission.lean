import GoLike.Struct.Encode

/-!
# Admission of graphs of containers

The walk of a value refuses the value when a container lies below itself or too deep, and only
then. Matching and encoding enter containers and leave them again however they end, so the
options of a union are judged alike whatever became of the options before them.
-/

namespace Struct

variable {ε : Type}

/-- `withEncodeGraph`: an encoding with a graph of its own. -/
def EncodesWithGraph (host : Host ε) (heap : Heap) (aliased : Bool)
    (encodeGraphs : List EncodeGraph) (struct : RuntimeStruct) (value : Value)
    (out : Except (Thrown ε) Built) (encodeGraphs' : List EncodeGraph) : Prop :=
  ∃ graphs, (encoding host heap aliased).Runs (rootGraph heap value :: encodeGraphs)
    (encodeFrame struct value false) out graphs ∧ encodeGraphs' = graphs.tail

/-- The admission of the graph of a value is exact and balanced. -/
structure Admission (host : Host ε) (heap : Heap) (value : Value) : Prop where
  /-- The walk ends, and finds nothing when no path from the value visits a container twice and
  none is too long. -/
  walk : ∃ found,
    (∃ k, ∀ turns, k ≤ turns → portableValueGraphError heap turns value = some found) ∧
      (found = none ↔ ∀ container path, valueContainer heap value = some container →
        BoundedPaths.IsPath (nestedContainers heap) (container :: path) →
          (container :: path).Nodup ∧ (container :: path).length ≤ PortableValueGraphDepthLimit)
  /-- A match leaves the graphs as it found them, however it ends. -/
  matching : ∀ (struct : RuntimeStruct) (enter : Bool) (g g' : List EncodeGraph)
    (out : Except (Thrown ε) Bool),
    (matching host heap).Runs g (matchFrame struct value enter) out g' → g' = g
  /-- An encoding leaves the graphs as it found them, however it ends. -/
  encoding : ∀ (aliased : Bool) (struct : RuntimeStruct) (enter : Bool) (g g' : List EncodeGraph)
    (out : Except (Thrown ε) Built),
    (encoding host heap aliased).Runs g (encodeFrame struct value enter) out g' → g' = g
  /-- An encoding with a graph of its own drops that graph and no other. -/
  withGraph : ∀ (aliased : Bool) (struct : RuntimeStruct) (g g' : List EncodeGraph)
    (out : Except (Thrown ε) Built),
    EncodesWithGraph host heap aliased g struct value out g' → g' = g
  /-- A union is judged by matches of its options by themselves, each from the graphs that the
  union found. -/
  union : ∀ (struct : RuntimeStruct) (options : List RuntimeStruct) (uniform : Bool)
    (g g' : List EncodeGraph) (out : Except (Thrown ε) Bool),
    struct.definition = .or options uniform → value ≠ .undefined →
      (value = .null → struct.nullable = false) →
        (MatchesRuntimeValue host heap g struct value out g' ↔
          JudgesOptions host heap g value options out ∧ g' = g)
  /-- The options between which an encoding chooses are those that accept the value by
  themselves, each from the graphs that the union found. -/
  choice : ∀ (options selected : List RuntimeStruct) (g g' : List EncodeGraph),
    SelectsUnionOptions host heap value g options (.ok selected) g' →
      g' = g ∧ ∃ answers, List.Forall₂ (Judges host heap g value) options answers ∧
        selected = ((options.zip answers).filter Prod.snd).map Prod.fst

/-- For every host, heap and value, the admission is exact and balanced. -/
theorem admission_exact (host : Host ε) (heap : Heap) (value : Value) :
  Admission host heap value
  := by
  constructor
  case walk =>
    exact ⟨graphError heap value, portableValueGraphError_eq heap value,
      graphError_eq_none_iff heap value⟩
  case matching =>
    intro struct enter g g' out hruns
    exact CallStack.Traversal.restores (matching_balanced host heap) hruns
  case encoding =>
    intro aliased struct enter g g' out hruns
    exact CallStack.Traversal.restores (encoding_balanced host heap aliased) hruns
  case withGraph =>
    rintro aliased struct g g' out ⟨graphs, hruns, rfl⟩
    rw [CallStack.Traversal.restores (encoding_balanced host heap aliased) hruns, List.tail_cons]
  case union =>
    intro struct options uniform g g' out hdefinition hundefined hnull
    have hruns : (CallStack.Traversal.Runs (Struct.matching host heap) g
        (matchFrame struct value false) out g' ↔ _) := runs_or hdefinition hundefined hnull
    rw [MatchesRuntimeValue, hruns]
    simp
  case choice =>
    intro options selected g g' hselects
    exact ⟨hselects.restores, hselects.judges⟩

end Struct
