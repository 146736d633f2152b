import Mathlib.Data.Int.Order.Basic

/-!
# Contexts

A context is derived from another one: it carries a value, hides the cancellation of its
parent, or has a cancellation of its own, possibly at a deadline. What is read of a context is
resolved along its parents. The state of a context with a cancellation of its own stands apart
from it, under the number of its node.
-/

namespace ContextTree

/-- The errors of a context that has ended. -/
inductive ContextError where
  | canceled | deadlineExceeded
  deriving DecidableEq

/-- An error: one of those of contexts, or one of a caller. -/
inductive ErrorValue (ε : Type) where
  | context (e : ContextError)
  | other (e : ε)

/-- A context. -/
inductive Context (κ ν : Type) where
  /-- The root that never ends. -/
  | background
  /-- A context that was not made by this package. -/
  | foreign (id : ℕ)
  | value (parent : Context κ ν) (key : κ) (storedValue : ν)
  | withoutCancel (parent : Context κ ν)
  | cancel (node : ℕ) (parent : Context κ ν) (deadlineEpoch : Option ℤ)

/-- The key of a value: that of a caller, or the private one under which a context with a
cancellation is found. -/
inductive Key (κ : Type) where
  | cancelContext
  | user (key : κ)
  deriving DecidableEq

/-- What is found under a key. -/
inductive Found (ν : Type) where
  | null
  | stored (v : ν)
  | carrier (node : ℕ)

/-- What the methods of foreign contexts return. -/
structure ForeignMethods (κ ν ε : Type) where
  deadline : ℕ → Option ℤ
  err : ℕ → Option (ErrorValue ε)
  value : ℕ → Key κ → Found ν

/-- A signal that ends: that of a node, or that of a foreign context. -/
inductive Signal where
  | node (node : ℕ)
  | foreign (id : ℕ)
  deriving DecidableEq

/-- Why a context has ended. -/
structure Failure (ε : Type) where
  err : ContextError
  cause : ErrorValue ε

namespace Context

variable {κ ν ε : Type}

/-! ### What is resolved along the parents -/

/-- The deadline of a context. -/
def resolveDeadline (methods : ForeignMethods κ ν ε) : Context κ ν → Option ℤ
  | background => none
  | foreign id => methods.deadline id
  | value parent _ _ => resolveDeadline methods parent
  | withoutCancel _ => none
  | cancel _ parent deadlineEpoch =>
      match deadlineEpoch with
      | some epoch => some epoch
      | none => resolveDeadline methods parent

/-- The signal of a context. A foreign context is one whose signal is not null. -/
def resolveDone : Context κ ν → Option Signal
  | background => none
  | foreign id => some (.foreign id)
  | value parent _ _ => resolveDone parent
  | withoutCancel _ => none
  | cancel node _ _ => some (.node node)

/-- The error of a context, given those of the nodes. -/
def resolveErr (methods : ForeignMethods κ ν ε) (readErr : ℕ → Option ContextError) :
    Context κ ν → Option (ErrorValue ε)
  | background => none
  | foreign id => methods.err id
  | value parent _ _ => resolveErr methods readErr parent
  | withoutCancel _ => none
  | cancel node _ _ => (readErr node).map .context

/-- The value of a context under a key. -/
def resolveValue [DecidableEq κ] (methods : ForeignMethods κ ν ε) :
    Context κ ν → Key κ → Found ν
  | background, _ => .null
  | foreign id, key => methods.value id key
  | value parent k storedValue, key =>
      if key = .user k then .stored storedValue else resolveValue methods parent key
  | withoutCancel parent, key =>
      if key = .cancelContext then .null else resolveValue methods parent key
  | cancel node parent _, key =>
      if key = .cancelContext then .carrier node else resolveValue methods parent key

/-- The cause of a context whose error has been observed. -/
def causeFromObservedError [DecidableEq κ] (methods : ForeignMethods κ ν ε)
    (readCause : ℕ → Option (ErrorValue ε)) (ctx : Context κ ν) (observed : ErrorValue ε) :
    ErrorValue ε :=
  match resolveValue methods ctx .cancelContext with
  | .carrier node => (readCause node).getD observed
  | _ => observed

/-- Why a parent has ended, as its children record it. -/
def readParentFailure [DecidableEq κ] (methods : ForeignMethods κ ν ε)
    (observed : ℕ → Option (Failure ε)) (parent : Context κ ν) : Failure ε :=
  match resolveErr methods (fun node => (observed node).map Failure.err) parent with
  | none => ⟨.canceled, .context .canceled⟩
  | some error =>
      { err :=
          match error with
          | .context .deadlineExceeded => .deadlineExceeded
          | _ => .canceled
        cause :=
          causeFromObservedError methods (fun node => (observed node).map Failure.cause) parent
            error }

/-! ### Ancestors -/

/-- The nodes on the way to the root, the nearest first. -/
def nodes : Context κ ν → List ℕ
  | background => []
  | foreign _ => []
  | value parent _ _ => nodes parent
  | withoutCancel parent => nodes parent
  | cancel node parent _ => node :: nodes parent

/-- No context on the way to the root is foreign. -/
def BuiltIn : Context κ ν → Prop
  | background => True
  | foreign _ => False
  | value parent _ _ => BuiltIn parent
  | withoutCancel parent => BuiltIn parent
  | cancel _ parent _ => BuiltIn parent

/-- The nearest node of a context is the one whose signal it has. -/
theorem nodes_of_resolveDone {ctx : Context κ ν} {node : ℕ}
    (h : ctx.resolveDone = some (.node node)) :
  node ∈ ctx.nodes
  := by
  induction ctx with
  | background | foreign | withoutCancel => cases h
  | value parent key storedValue ih => exact ih h
  | cancel n parent deadlineEpoch ih =>
      cases h
      exact List.mem_cons_self

/-- The record of a node is what is read of a context that has its signal. -/
theorem readParentFailure_of_resolveDone [DecidableEq κ] (methods : ForeignMethods κ ν ε)
    {observed : ℕ → Option (Failure ε)} {ctx : Context κ ν} {node : ℕ}
    (h : ctx.resolveDone = some (.node node)) {failure : Failure ε}
    (hfailure : observed node = some failure) :
  readParentFailure methods observed ctx = failure
  := by
  have herr : resolveErr methods (fun node => (observed node).map Failure.err) ctx =
      some (.context failure.err) := by
    induction ctx with
    | background | foreign | withoutCancel => cases h
    | value parent key storedValue ih => exact ih h
    | cancel n parent deadlineEpoch ih =>
        cases h
        simp only [resolveErr, hfailure, Option.map_some]
  have hvalue : resolveValue methods ctx .cancelContext = .carrier node := by
    clear herr
    induction ctx with
    | background | foreign | withoutCancel => cases h
    | value parent key storedValue ih =>
        rw [resolveValue, if_neg (by rintro ⟨⟩)]
        exact ih h
    | cancel n parent deadlineEpoch ih =>
        cases h
        rw [resolveValue, if_pos rfl]
  obtain ⟨err, cause⟩ := failure
  simp only [readParentFailure, herr, causeFromObservedError, hvalue, hfailure, Option.map_some,
    Option.getD_some]
  cases err with
  | canceled | deadlineExceeded => rfl

end Context

end ContextTree
