import GoLike.Resilience.Limiter
import Mathlib.Logic.Relation

/-!
# The circuit breaker

A breaker admits calls while it is closed, opens after consecutive failures, and once its
reset timeout has passed admits a single probe that decides whether it closes or opens again.
The calls overlap: an operation and the classification of its failure may take any time. A
call holds a ticket with the generation of the breaker that has admitted it.

The clock is read as a rational number, and elapsed times are exact.
-/

namespace Resilience

/-! ### Options -/

structure CircuitBreakerOptions where
  failureThreshold : JsNumber
  resetTimeoutMs : JsNumber
  /-- Whether failures are classified. -/
  isFailure : Bool

/-- The options of a breaker, when they are valid. -/
structure CircuitBreaker where
  failureThreshold : ℕ
  resetTimeoutMs : ℚ
  isFailure : Bool
  failureThreshold_pos : 0 < failureThreshold
  resetTimeoutMs_nonneg : 0 ≤ resetTimeoutMs

/-- A number that has to be finite and not negative. -/
def nonnegativeNumber (value : JsNumber) (name : String) : Except OptionError {q : ℚ // 0 ≤ q} :=
  match value.toRat? with
  | none => .error (.rangeError (name ++ " must be a finite non-negative number"))
  | some q =>
      if h : 0 ≤ q then .ok ⟨q, h⟩
      else .error (.rangeError (name ++ " must be a finite non-negative number"))

theorem nonnegative_val (q : {q : ℚ // 0 ≤ q}) : 0 ≤ q.val
  := q.property

/-- The options that a breaker is created with. -/
def newCircuitBreaker (options : CircuitBreakerOptions) : Except OptionError CircuitBreaker := do
  let failureThreshold ← positiveInteger options.failureThreshold "failureThreshold"
  let resetTimeoutMs ← nonnegativeNumber options.resetTimeoutMs "resetTimeoutMs"
  .ok ⟨failureThreshold.val, resetTimeoutMs.val, options.isFailure,
    positive_val failureThreshold, nonnegative_val resetTimeoutMs⟩

/-! ### The variables -/

inductive CircuitState where
  | closed
  | opened
  | halfOpen
  deriving DecidableEq, Repr

/-- The variables of a breaker. -/
structure Circuit where
  state : CircuitState
  consecutiveFailures : ℕ
  openedAt : ℚ
  probeActive : Bool
  generation : ℕ
  deriving DecidableEq

/-- A call has been admitted by a generation, which was half-open or closed. -/
structure CircuitTicket where
  generation : ℕ
  halfOpen : Bool
  deriving DecidableEq, Repr

/-- The circuit when the breaker has been created. -/
def newCircuit : Circuit := ⟨.closed, 0, 0, false, 0⟩

namespace CircuitBreaker

variable (b : CircuitBreaker)

/-- An open circuit whose reset timeout has passed becomes half-open. -/
def refresh (observedAt : ℚ) (c : Circuit) : Circuit :=
  if c.state ≠ .opened ∨ observedAt - c.openedAt < b.resetTimeoutMs then c
  else { c with state := .halfOpen, probeActive := false, generation := c.generation + 1 }

/-- Admit a call of a closed circuit, or the probe of a half-open one. -/
def admitCall (observedAt : ℚ) (c : Circuit) : Option CircuitTicket × Circuit :=
  let c := b.refresh observedAt c
  match c.state with
  | .opened => (none, c)
  | .halfOpen =>
      if c.probeActive then (none, c)
      else (some ⟨c.generation, true⟩, { c with probeActive := true })
  | .closed => (some ⟨c.generation, false⟩, c)

/-- Open the circuit. -/
def openCircuit (observedAt : ℚ) (c : Circuit) : Circuit :=
  { c with
    state := .opened
    openedAt := observedAt
    probeActive := false
    generation := c.generation + 1 }

/-- Record the success of a call. -/
def recordSuccess (ticket : CircuitTicket) (c : Circuit) : Circuit :=
  if ticket.generation ≠ c.generation then c
  else if ticket.halfOpen then
    { c with
      state := .closed
      probeActive := false
      consecutiveFailures := 0
      generation := c.generation + 1 }
  else { c with consecutiveFailures := 0 }

/-- Record the failure of a call. The clock shows `now`. -/
def recordFailure (ticket : CircuitTicket) (now : ℚ) (c : Circuit) : Circuit :=
  if ticket.generation ≠ c.generation then c
  else if ticket.halfOpen then openCircuit now c
  else
    let failures := c.consecutiveFailures + 1
    if b.failureThreshold ≤ failures then
      openCircuit now { c with consecutiveFailures := failures }
    else { c with consecutiveFailures := failures }

/-- Release the probe without an outcome. -/
def recordNeutral (ticket : CircuitTicket) (c : Circuit) : Circuit :=
  if ticket.generation = c.generation ∧ ticket.halfOpen then { c with probeActive := false }
  else c

/-! ### Calls -/

/-- The failure that a context shows, or what reading it throws. -/
inductive ContextReading (ε : Type) where
  | active
  | ended (failure : ε)
  | throws (failure : ε)

/-- What a call throws. -/
inductive Thrown (ε : Type) where
  /-- The circuit breaker is open. -/
  | circuitOpen
  | typeError (message : String)
  | failure (failure : ε)

/-- How an operation ends. The context is read after a failure. -/
inductive OperationResult (ε : Type) where
  | returned
  | failed (failure : ε) (reading : ContextReading ε)

/-- How the classification of a failure ends. The context is read after it. -/
inductive ClassifierResult (ε : Type) where
  /-- `none` when the result is not a boolean. -/
  | returned (breakerFailure : Option Bool) (reading : ContextReading ε)
  | threw (failure : ε) (reading : ContextReading ε)

/-- How far a call has got. -/
inductive Phase (ε : Type) where
  | operating (ticket : CircuitTicket)
  | classifying (ticket : CircuitTicket) (failure : ε)
  | returned
  | threw (failure : Thrown ε)

/-- How an admitted call is recorded. -/
inductive Record where
  | success
  | failure
  | neutral
  deriving DecidableEq, Repr

variable {ε : Type}

/-- Record the outcome of a call. -/
def record (ticket : CircuitTicket) (now : ℚ) (r : Record) (c : Circuit) : Circuit :=
  match r with
  | .success => recordSuccess ticket c
  | .failure => b.recordFailure ticket now c
  | .neutral => recordNeutral ticket c

/-- The operation of a call has ended: how the call goes on, and what it records. -/
def settleOperation (ticket : CircuitTicket) : OperationResult ε → Phase ε × Option Record
  | .returned => (.returned, some .success)
  | .failed failure reading =>
      match reading with
      | .throws contextReadFailure => (.threw (.failure contextReadFailure), some .neutral)
      | .ended contextFailure => (.threw (.failure contextFailure), some .neutral)
      | .active =>
          if b.isFailure then (.classifying ticket failure, none)
          else (.threw (.failure failure), some .failure)

/-- The classification of a failure has ended: how the call goes on, and what it records. -/
def settleClassification (failure : ε) : ClassifierResult ε → Phase ε × Option Record
  | .threw classificationFailure reading =>
      match reading with
      | .throws contextReadFailure => (.threw (.failure contextReadFailure), some .neutral)
      | .ended contextFailure => (.threw (.failure contextFailure), some .neutral)
      | .active => (.threw (.failure classificationFailure), some .failure)
  | .returned breakerFailure reading =>
      match reading with
      | .throws contextReadFailure => (.threw (.failure contextReadFailure), some .neutral)
      | .ended contextFailure => (.threw (.failure contextFailure), some .neutral)
      | .active =>
          match breakerFailure with
          | none => (.threw (.typeError "isFailure must return a boolean"), some .failure)
          | some true => (.threw (.failure failure), some .failure)
          | some false => (.threw (.failure failure), some .success)

/-- The arguments of `execute`: the context, and whether the operation is callable. -/
structure Execution (ε : Type) where
  context : ContextReading ε
  callable : Bool

/-- The state, the failures, the probe and the delay that a snapshot shows. -/
structure CircuitSnapshot where
  state : CircuitState
  consecutiveFailures : ℕ
  probeActive : Bool
  retryAfterMs : ℤ

/-- A snapshot, after an elapsed reset timeout has been applied. -/
def snapshot (observedAt : ℚ) (c : Circuit) : CircuitSnapshot × Circuit :=
  let c := b.refresh observedAt c
  let retryAfterMs :=
    if c.state = .opened then max 0 (c.openedAt + b.resetTimeoutMs - observedAt).ceil else 0
  (⟨c.state, c.consecutiveFailures, c.probeActive, retryAfterMs⟩, c)

/-! ### Runs -/

/-- What happens to a circuit. Nothing depends on it. -/
inductive Event where
  | admitted (call : ℕ) (now : ℚ)
  | recorded (call : ℕ)
  | opened (now : ℚ)
  deriving DecidableEq

/-- A breaker and its calls, which are numbered. -/
structure System (ε : Type) where
  circuit : Circuit
  phase : ℕ → Option (Phase ε)
  /-- The last reading of the clock. -/
  clock : ℚ
  /-- What has happened, last things first. -/
  history : List Event

namespace System

variable (s : System ε)

/-- A call has got to a phase. -/
def proceed (a : ℕ) (phase : Phase ε) : System ε :=
  { s with phase := Function.update s.phase a (some phase) }

/-- The event of a step that has opened a circuit. -/
def opening (now : ℚ) (before after : Circuit) : List Event :=
  if before.generation ≠ after.generation ∧ after.state = .opened then [.opened now] else []

/-- A call gets to a phase, and records what it has to. -/
def settle (a : ℕ) (ticket : CircuitTicket) (now : ℚ) (next : Phase ε × Option Record) :
    System ε :=
  match next.2 with
  | none => { s.proceed a next.1 with clock := now }
  | some r =>
      let circuit := b.record ticket now r s.circuit
      { s.proceed a next.1 with
        circuit := circuit
        clock := now
        history := opening now s.circuit circuit ++ .recorded a :: s.history }

/-- A call of `execute`. -/
def execute (a : ℕ) (now : ℚ) (call : Execution ε) : System ε :=
  match call.context with
  | .throws failure => s.proceed a (.threw (.failure failure))
  | .ended failure => s.proceed a (.threw (.failure failure))
  | .active =>
      if call.callable = false then s.proceed a (.threw (.typeError "operation must be callable"))
      else
        let admitted := b.admitCall now s.circuit
        match admitted.1 with
        | none => { s.proceed a (.threw .circuitOpen) with circuit := admitted.2, clock := now }
        | some ticket =>
            { s.proceed a (.operating ticket) with
              circuit := admitted.2
              clock := now
              history := .admitted a now :: s.history }

end System

/-- A step of a breaker and its calls. The clock does not go back. -/
inductive Step : System ε → System ε → Prop where
  | execute {s : System ε} {a : ℕ} {now : ℚ} (call : Execution ε) (hnew : s.phase a = none)
      (hnow : s.clock ≤ now) : Step s (s.execute b a now call)
  | operation {s : System ε} {a : ℕ} {now : ℚ} {ticket : CircuitTicket}
      (result : OperationResult ε) (hphase : s.phase a = some (.operating ticket))
      (hnow : s.clock ≤ now) : Step s (s.settle b a ticket now (b.settleOperation ticket result))
  | classification {s : System ε} {a : ℕ} {now : ℚ} {ticket : CircuitTicket} {failure : ε}
      (result : ClassifierResult ε) (hphase : s.phase a = some (.classifying ticket failure))
      (hnow : s.clock ≤ now) :
      Step s (s.settle b a ticket now (settleClassification failure result))
  | snapshot {s : System ε} {now : ℚ} (hnow : s.clock ≤ now) :
      Step s { s with circuit := (b.snapshot now s.circuit).2, clock := now }

/-- The system when the breaker has been created. -/
def newSystem (now : ℚ) : System ε := ⟨newCircuit, fun _ => none, now, []⟩

end CircuitBreaker

end Resilience
