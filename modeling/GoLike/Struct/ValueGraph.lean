import GoLike.Lib.BoundedPaths
import GoLike.Struct.Value

/-!
# Graphs of containers

Before a value is parsed or encoded, its containers are walked depth first on a stack of frames.
The walk fails when a container lies below itself, or too deep, and follows no property that has
a getter. `portableValueGraph_exact` says that the walk ends, and when it fails. While a value
is encoded or matched, the containers above the current one are kept in the graph of the call.
-/

namespace Struct

/-- The greatest number of nested containers. -/
def PortableValueGraphDepthLimit : ℕ := 1000

/-- Why a graph is refused. -/
inductive GraphError where
  /-- "struct value exceeds portable container depth limit 1000" -/
  | depth
  /-- "struct value contains a cycle" -/
  | cycle
  deriving DecidableEq

/-! ### The walk -/

/-- A frame of the walk. -/
inductive ValueGraphFrame where
  | entering (containerDepth : ℕ) (value : Value)
  | leaving (address : ℕ)

/-- The state of the walk; the first frame is on top. -/
structure ValueGraphWalk where
  active : List ℕ
  stack : List ValueGraphFrame

/-- A frame is popped. -/
def walkFrame (heap : Heap) (active : List ℕ) (rest : List ValueGraphFrame) :
    ValueGraphFrame → Except GraphError ValueGraphWalk
  | .leaving address => .ok ⟨active.filter (fun a => a ≠ address), rest⟩
  | .entering depth value =>
      match valueContainer heap value with
      | none => .ok ⟨active, rest⟩
      | some container =>
          let containerDepth := depth + 1
          if containerDepth > PortableValueGraphDepthLimit then .error .depth
          else if container ∈ active then .error .cycle
          else
            -- the frames are pushed in reverse, so that the first key is on top
            .ok ⟨container :: active,
              (heap container).dataValues.map (.entering containerDepth) ++
                .leaving container :: rest⟩

/-- At most so many turns of the loop: `none` when they do not suffice. -/
def walkFrames (heap : Heap) : ℕ → ValueGraphWalk → Option (Option GraphError)
  | 0, _ => none
  | _ + 1, ⟨_, []⟩ => some none
  | n + 1, ⟨active, frame :: rest⟩ =>
      match walkFrame heap active rest frame with
      | .error e => some (some e)
      | .ok walk => walkFrames heap n walk

/-- `portableValueGraphError`, with at most so many turns of its loop. -/
def portableValueGraphError (heap : Heap) (turns : ℕ) (value : Value) :
    Option (Option GraphError) :=
  walkFrames heap turns ⟨[], [.entering 0 value]⟩

/-! ### What the walk finds -/

/-- The containers that a container holds, in the order of the walk. -/
def nestedContainers (heap : Heap) (address : ℕ) : List ℕ :=
  (heap address).dataValues.filterMap (valueContainer heap)

/-- What a walk finds below containers `active`, with a bound on the depth that is left. -/
def scan (heap : Heap) : ℕ → List ℕ → Value → Option GraphError
  | 0, _, value => if (valueContainer heap value).isSome then some .depth else none
  | n + 1, active, value =>
      match valueContainer heap value with
      | none => none
      | some container =>
          if container ∈ active then some .cycle
          else (heap container).dataValues.findSome? (scan heap n (container :: active))

/-- What the walk of a value finds. -/
def graphError (heap : Heap) (value : Value) : Option GraphError :=
  scan heap PortableValueGraphDepthLimit [] value

/-- A walk goes on, or has found an error. -/
def walkAfter (heap : Heap) (turns : ℕ) (walk : ValueGraphWalk) (found : Option GraphError) :
    Option (Option GraphError) :=
  match found with
  | none => walkFrames heap turns walk
  | some e => some (some e)

/-- Frames that are entered one after the other find what the first one finds that finds
something. -/
theorem walkFrames_children {heap : Heap} {n depth : ℕ} {active : List ℕ}
    (h : ∀ value rest, ∃ k, ∀ m, walkFrames heap (m + k) ⟨active, .entering depth value :: rest⟩ =
      walkAfter heap m ⟨active, rest⟩ (scan heap n active value))
    (values : List Value) (rest : List ValueGraphFrame) :
  ∃ k, ∀ m, walkFrames heap (m + k) ⟨active, values.map (.entering depth) ++ rest⟩ =
    walkAfter heap m ⟨active, rest⟩ (values.findSome? (scan heap n active))
  := by
  induction values with
  | nil => exact ⟨0, fun m => rfl⟩
  | cons value values ih =>
      obtain ⟨k, hk⟩ := ih
      obtain ⟨j, hj⟩ := h value (values.map (.entering depth) ++ rest)
      use k + j
      intro m
      rw [← Nat.add_assoc, List.map_cons, List.cons_append, hj, List.findSome?_cons]
      cases scan heap n active value with
      | none => exact hk m
      | some e => rfl

/-- A value that is no container finds nothing. -/
theorem scan_of_no_container {heap : Heap} {value : Value} (h : valueContainer heap value = none)
    (n : ℕ) (active : List ℕ) :
  scan heap n active value = none
  := by
  cases n with
  | zero | succ => simp [scan, h]

/-- A frame that is entered finds what a scan from its value finds. -/
theorem walkFrames_entering (heap : Heap) {n depth : ℕ}
    (hdepth : depth + n = PortableValueGraphDepthLimit) (active : List ℕ) (value : Value)
    (rest : List ValueGraphFrame) :
  ∃ k, ∀ m, walkFrames heap (m + k) ⟨active, .entering depth value :: rest⟩ =
    walkAfter heap m ⟨active, rest⟩ (scan heap n active value)
  := by
  induction n generalizing depth active value rest with
  | zero =>
      use 1
      intro m
      cases hcontainer : valueContainer heap value with
      | none =>
          rw [scan_of_no_container hcontainer]
          simp [walkFrames, walkFrame, hcontainer, walkAfter]
      | some container =>
          have hlimit : depth + 1 > PortableValueGraphDepthLimit := by omega
          simp [walkFrames, walkFrame, scan, hcontainer, hlimit, walkAfter]
  | succ n ih =>
      cases hcontainer : valueContainer heap value with
      | none =>
          use 1
          intro m
          rw [scan_of_no_container hcontainer]
          simp [walkFrames, walkFrame, hcontainer, walkAfter]
      | some container =>
          have hlimit : ¬ depth + 1 > PortableValueGraphDepthLimit := by omega
          by_cases hactive : container ∈ active
          · use 1
            intro m
            simp [walkFrames, walkFrame, scan, hcontainer, hlimit, hactive, walkAfter]
          · have hbelow : ∀ value rest, ∃ k, ∀ m,
                walkFrames heap (m + k) ⟨container :: active, .entering (depth + 1) value :: rest⟩ =
                  walkAfter heap m ⟨container :: active, rest⟩
                    (scan heap n (container :: active) value) :=
              ih (by omega) (container :: active)
            obtain ⟨k, hk⟩ := walkFrames_children hbelow (heap container).dataValues
              (.leaving container :: rest)
            have hleave : (container :: active).filter (fun a => a ≠ container) = active := by
              rw [List.filter_cons_of_neg (by simp), List.filter_eq_self]
              intro a ha
              simpa using fun heq : a = container => hactive (heq ▸ ha)
            use 1 + k + 1
            intro m
            have hsum : m + (1 + k + 1) = m + 1 + k + 1 := by omega
            rw [hsum]
            simp only [walkFrames, walkFrame, scan, hcontainer, hlimit, hactive, if_false]
            rw [hk]
            cases (heap container).dataValues.findSome? (scan heap n (container :: active)) with
            | none => simp only [walkAfter, walkFrames, walkFrame, hleave]
            | some e => rfl

/-- The walk ends, and finds what a scan finds. -/
theorem portableValueGraphError_eq (heap : Heap) (value : Value) :
  ∃ k, ∀ turns, k ≤ turns →
    portableValueGraphError heap turns value = some (graphError heap value)
  := by
  obtain ⟨k, hk⟩ := walkFrames_entering heap (Nat.zero_add _) [] value []
  use k + 1
  intro turns hturns
  obtain ⟨m, rfl⟩ := Nat.exists_eq_add_of_le hturns
  have hsum : k + 1 + m = m + 1 + k := by omega
  rw [portableValueGraphError, hsum, hk, graphError]
  cases scan heap PortableValueGraphDepthLimit [] value with
  | none | some => rfl

/-- A scan finds nothing when the descent from the container of the value is admitted. -/
theorem scan_eq_none_iff {heap : Heap} {n : ℕ} {active : List ℕ} {value : Value} :
  scan heap n active value = none ↔ ∀ container, valueContainer heap value = some container →
    BoundedPaths.Admits (nestedContainers heap) n active container
  := by
  induction n generalizing active value with
  | zero =>
      rw [scan]
      cases valueContainer heap value with
      | none => simp
      | some container => simp [BoundedPaths.Admits]
  | succ n ih =>
      rw [scan]
      cases valueContainer heap value with
      | none => simp
      | some container =>
          by_cases hactive : container ∈ active
          · simp [hactive, BoundedPaths.Admits]
          · simp only [hactive, if_false, List.findSome?_eq_none_iff, ih, Option.some.injEq,
              forall_eq', BoundedPaths.Admits, not_false_eq_true, true_and, nestedContainers,
              List.mem_filterMap]
            constructor
            · rintro h b ⟨child, hchild, hb⟩
              exact h child hchild b hb
            · intro h child hchild b hb
              exact h b ⟨child, hchild, hb⟩

/-- The walk fails when a container lies below itself or too deep, and only then. -/
theorem graphError_eq_none_iff (heap : Heap) (value : Value) :
  graphError heap value = none ↔ ∀ container path, valueContainer heap value = some container →
    BoundedPaths.IsPath (nestedContainers heap) (container :: path) →
      (container :: path).Nodup ∧ (container :: path).length ≤ PortableValueGraphDepthLimit
  := by
  rw [graphError, scan_eq_none_iff]
  constructor
  · intro h container path hcontainer hpath
    obtain ⟨hlength, hnodup, -⟩ :=
      (BoundedPaths.admits_iff _ _ _).1 (h container hcontainer) path hpath
    exact ⟨hnodup, hlength⟩
  · intro h container hcontainer
    apply (BoundedPaths.admits_iff _ _ _).2
    intro path hpath
    obtain ⟨hnodup, hlength⟩ := h container path hcontainer hpath
    exact ⟨hlength, hnodup, fun b _ => List.not_mem_nil⟩

/-! ### The graph of a call -/

/-- What a call throws: an error of its own, or one of a hook. -/
inductive Thrown (ε : Type) where
  /-- A `StructError` of the graph. -/
  | graph (error : GraphError)
  /-- A `StructError`: "struct intersection arrays have different lengths". -/
  | arrayLengths
  /-- A `TypeError` of `assertPortableValueGraph`. -/
  | portable (error : GraphError)
  /-- A `TypeError`: "ambiguous union encode: multiple union branches match with different wire
  output". -/
  | ambiguous
  /-- A `TypeError`: two fields of an object have the same wire key. -/
  | duplicateWireKey
  /-- What a hook, a getter or an accessor throws. -/
  | host (error : ε)
  deriving DecidableEq

/-- `assertPortableValueGraph`. -/
def assertPortableValueGraph {ε : Type} (heap : Heap) (value : Value) : Except (Thrown ε) Unit :=
  match graphError heap value with
  | none => .ok ()
  | some e => .error (.portable e)

/-- The containers above the current one in a call, and their number. -/
structure EncodeGraph where
  active : List ℕ
  depth : ℕ
  deriving DecidableEq

/-- The graph of a call that starts at a value. -/
def rootGraph (heap : Heap) (value : Value) : EncodeGraph :=
  match valueContainer heap value with
  | none => ⟨[], 0⟩
  | some container => ⟨[container], 1⟩

/-- `enterEncode`, on the graphs of the calls of which the first is the current one. -/
def enterEncode {ε : Type} (heap : Heap) (encodeGraphs : List EncodeGraph) (value : Value) :
    Except (Thrown ε) (List EncodeGraph) :=
  match encodeGraphs, valueContainer heap value with
  | graph :: graphs, some container =>
      let depth := graph.depth + 1
      if depth > PortableValueGraphDepthLimit then .error (.graph .depth)
      else if container ∈ graph.active then .error (.graph .cycle)
      else .ok (⟨container :: graph.active, depth⟩ :: graphs)
  | _, _ => .ok encodeGraphs

/-- The function that `enterEncode` returns. -/
def leaveEncode (heap : Heap) (encodeGraphs : List EncodeGraph) (value : Value) :
    List EncodeGraph :=
  match encodeGraphs, valueContainer heap value with
  | graph :: graphs, some container =>
      ⟨graph.active.filter (fun a => a ≠ container), graph.depth - 1⟩ :: graphs
  | _, _ => encodeGraphs

/-- What was entered is left again. -/
theorem leaveEncode_enterEncode {ε : Type} {heap : Heap} {graphs graphs' : List EncodeGraph}
    {value : Value} (h : enterEncode (ε := ε) heap graphs value = .ok graphs') :
  leaveEncode heap graphs' value = graphs
  := by
  cases graphs with
  | nil =>
      cases h
      rfl
  | cons graph graphs =>
      rw [enterEncode.eq_def] at h
      cases hcontainer : valueContainer heap value with
      | none =>
          simp only [hcontainer] at h
          cases h
          simp only [leaveEncode, hcontainer]
      | some container =>
          simp only [hcontainer] at h
          split at h
          · cases h
          · split at h
            · cases h
            · rename_i hactive
              cases h
              have hfilter : graph.active.filter (fun a => a ≠ container) = graph.active := by
                rw [List.filter_eq_self]
                intro a ha
                simpa using fun heq : a = container => hactive (heq ▸ ha)
              simp only [leaveEncode, hcontainer]
              rw [List.filter_cons_of_neg (by simp), hfilter, Nat.add_sub_cancel]

end Struct
