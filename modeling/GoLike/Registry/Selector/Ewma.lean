import GoLike.Registry.Selector.PowerOfTwoDomains

/-!
# Selection by smoothed latency

A selector samples two endpoints, and selects the one with the higher weight: its smoothed success
over its load, which is made of its smoothed latency and its requests in flight. The requests in
flight are observed in a ring of fixed size, where a slot that is still taken is not given again.

The arithmetic is exact. The caller's clock, random numbers, contexts and outcomes are read while
other calls of the selector may be made. A selection reads all of these before it reads or changes
the state of the selector, and so it is one step. A callback has one step for each of its parts
that does.
-/

open Store

namespace Registry.EWMA

open P2C (SourceResult sourceNumber randomSample retained QueuedCompletion Completion)

variable {urls : UrlParser} {ε : Type}

/-! ### Numbers -/

def EWMAForcePickMs : ℚ := 3000

def EWMAObservationSlots : ℕ := 200

instance : NeZero EWMAObservationSlots := ⟨by decide⟩

def EWMAHealthScale : ℤ := 1000

def EWMAWeightScale : ℚ := 10000

def EWMANoDataPenaltyNs : ℚ := 100000

def EWMALatencyOffsetNs : ℚ := 5000000

/-- The factor by which older values count, for each time since the last update. -/
structure Decay where
  factor : ℚ → ℚ
  nonneg : ∀ elapsed, 0 ≤ factor elapsed
  le_one : ∀ elapsed, factor elapsed ≤ 1

/-- The integer part of a number. -/
def trunc (q : ℚ) : ℤ := if 0 ≤ q then ⌊q⌋ else ⌈q⌉

/-- The integer part of the square root of a number that is not negative. -/
def truncSqrt (q : ℚ) : ℕ := Nat.sqrt ⌊q⌋.toNat

/-- What the clock shows. -/
def monotonicNow (result : SourceResult ε) : Except (SelectorError ε) ℚ :=
  sourceNumber "EWMA selector clock callback must be synchronous"
    "EWMA selector clock must return a finite non-negative number" (fun q => 0 ≤ q) result

/-! ### Endpoint states -/

/-- An observation of a request in flight, which is that of one selection. -/
structure EWMAObservation where
  selection : ℕ
  slot : Fin EWMAObservationSlots
  startedAt : ℚ
  tracked : Bool
  deriving DecidableEq

/-- The state of an endpoint. -/
structure EWMAEndpointState (ε : Type) where
  latencyMs : ℚ
  success : ℤ
  inFlight : ℤ
  stamp : ℚ
  lastPick : Option ℚ
  nextSlot : Fin EWMAObservationSlots
  observations : Fin EWMAObservationSlots → Option EWMAObservation
  completionActive : Bool
  /-- The completions that have not ended, the running one first. -/
  completionQueue : List (QueuedCompletion ε)
  /-- What the completions before the running one have thrown. -/
  failures : List (SelectorError ε)

def newEWMAEndpointState : EWMAEndpointState ε :=
  ⟨0, EWMAHealthScale, 1, 0, none, 1, fun _ => none, false, [], []⟩

/-- A selection that has been issued, with the endpoint state it counts in. -/
structure IssuedSelection where
  state : ℕ
  observation : EWMAObservation
  completion : Completion

/-- The endpoint states and the selections that have been issued, by their numbers. -/
structure Ledger (ε : Type) where
  states : ℕ → EWMAEndpointState ε
  stateCount : ℕ
  selections : ℕ → IssuedSelection
  selectionCount : ℕ

namespace Ledger

/-- Change an endpoint state. -/
def setState (l : Ledger ε) (s : ℕ) (state : EWMAEndpointState ε) : Ledger ε :=
  { l with states := Function.update l.states s state }

/-- Change how far a callback has got. -/
def setCompletion (l : Ledger ε) (d : ℕ) (completion : Completion) : Ledger ε :=
  { l with
    selections := Function.update l.selections d { l.selections d with completion := completion } }

/-- Create an endpoint state. -/
def create (l : Ledger ε) : Ledger ε :=
  { l.setState l.stateCount newEWMAEndpointState with stateCount := l.stateCount + 1 }

end Ledger

/-! ### Weights -/

/-- The latencies of the requests in flight that are observed, in the order of the ring. -/
def observedLatencies (state : EWMAEndpointState ε) (now : ℚ) : List ℚ :=
  ((List.finRange EWMAObservationSlots).filterMap state.observations).map fun observation =>
    max (now - observation.startedAt) 0

/-- The mean of the observed latencies above the smoothed one, when they are the majority. -/
def predictedEWMALatency (state : EWMAEndpointState ε) (now : ℚ) : ℚ :=
  let tracked := observedLatencies state now
  let slow := tracked.filter fun latency => state.latencyMs < latency
  if tracked.length / 2 + 1 ≤ slow.length then slow.sum / slow.length else 0

def ewmaLoad (state : EWMAEndpointState ε) (now : ℚ) : ℚ :=
  let predicted := predictedEWMALatency state now
  if state.latencyMs = 0 then EWMANoDataPenaltyNs * state.inFlight
  else
    let latency := max state.latencyMs predicted
    truncSqrt (latency * 1000000 + EWMALatencyOffsetNs) * state.inFlight

def ewmaWeight (state : EWMAEndpointState ε) (now : ℚ) : ℚ :=
  state.success * EWMAWeightScale / ewmaLoad state now

/-! ### Selections -/

/-- The endpoint states of a domain, by their numbers. -/
abbrev States : Type := JsMap JsString ℕ

/-- The state of an endpoint, which is created when there is none. -/
def ewmaEndpointState (l : Ledger ε) (states : States) (e : ServiceEndpoint urls) :
    Ledger ε × States × ℕ :=
  match states.get? (endpointIdentity e) with
  | some state => (l, states, state)
  | none => (l.create, states.set (endpointIdentity e) l.stateCount, l.stateCount)

/-- The endpoint with the higher weight of two, unless the other one has not been picked lately. -/
def ewmaEndpoint (l : Ledger ε) (states : States) (first second : ServiceEndpoint urls) (now : ℚ) :
    Ledger ε × States × ServiceEndpoint urls :=
  let a := ewmaEndpointState l states first
  let b := ewmaEndpointState a.1 a.2.1 second
  let firstState := b.1.states a.2.2
  let secondState := b.1.states b.2.2
  let firstPreferred : Bool := ewmaWeight secondState now ≤ ewmaWeight firstState now
  let preferred := if firstPreferred then first else second
  let alternate := if firstPreferred then second else first
  let alternateState := if firstPreferred then secondState else firstState
  let stale := match alternateState.lastPick with
    | none => true
    | some lastPick => EWMAForcePickMs < now - lastPick
  (b.1, b.2.1, if stale then alternate else preferred)

/-- The observation of a selection that begins: its slot is not tracked when something has it. -/
def newObservation (state : EWMAEndpointState ε) (selection : ℕ) (now : ℚ) : EWMAObservation :=
  ⟨selection, state.nextSlot, now, (state.observations state.nextSlot).isNone⟩

/-- The state of an endpoint after an observation has begun in the next slot of its ring. -/
def started (state : EWMAEndpointState ε) (observation : EWMAObservation) : EWMAEndpointState ε :=
  { state with
    nextSlot := observation.slot + 1
    observations :=
      if observation.tracked then
        Function.update state.observations observation.slot (some observation)
      else state.observations
    lastPick := some ((state.lastPick.map (max · observation.startedAt)).getD observation.startedAt)
    inFlight := state.inFlight + 1 }

/-- An observation begins, and a selection is issued. -/
def startEWMAObservation (l : Ledger ε) (s : ℕ) (now : ℚ) : Ledger ε :=
  let observation := newObservation (l.states s) l.selectionCount now
  { l.setState s (started (l.states s) observation) with
    selections := Function.update l.selections l.selectionCount ⟨s, observation, .opened⟩
    selectionCount := l.selectionCount + 1 }

/-- The domains that were selected from last, with their endpoint states. -/
abbrev Domains : Type := JsMap JsString States

/-- The state of a selector. -/
structure World (ε : Type) where
  ledger : Ledger ε
  domains : Domains

/-- A selector that has been created. -/
def newWorld : World ε where
  ledger :=
    { states := fun _ => newEWMAEndpointState
      stateCount := 0
      selections := fun _ => ⟨0, ⟨0, 0, 0, false⟩, .opened⟩
      selectionCount := 0 }
  domains := .empty

/-- The index of a sample. -/
def sampledIndex (sample : ℚ) (count : ℕ) : ℕ := ⌊sample * count⌋.toNat

/-- Two endpoints that are sampled without replacement. -/
def endpointsFromSamples (first : ServiceEndpoint urls) (rest : List (ServiceEndpoint urls))
    (firstSample secondSample : ℚ) : ServiceEndpoint urls × ServiceEndpoint urls :=
  let firstIndex := sampledIndex firstSample (rest.length + 1)
  let secondBase := sampledIndex secondSample rest.length
  let secondIndex := if firstIndex ≤ secondBase then secondBase + 1 else secondBase
  (itemAt first rest firstIndex, itemAt first rest secondIndex)

/-- What a selection has read: the candidates, the clock, and two samples of several candidates. -/
structure Sampling (urls : UrlParser) where
  candidates : Candidates urls
  now : ℚ
  sampled : Option (ServiceEndpoint urls × ServiceEndpoint urls)

/-- The samples of several candidates. A single candidate is not sampled. -/
def readSamples (c : Candidates urls) (first second : SourceResult ε) :
    Except (SelectorError ε) (Option (ServiceEndpoint urls × ServiceEndpoint urls)) :=
  if c.rest.isEmpty then .ok none
  else do
    let firstSample ← randomSample first
    let secondSample ← randomSample second
    .ok (some (endpointsFromSamples c.first c.rest firstSample secondSample))

/-- What a selection reads of the caller. -/
def readSelection (urls : UrlParser) (call : SelectCall ε) (clock first second : SourceResult ε) :
    Except (SelectorError ε) (Sampling urls) := do
  let c ← candidates urls call
  let now ← monotonicNow clock
  let sampled ← readSamples c first second
  .ok ⟨c, now, sampled⟩

/-- An endpoint is selected. -/
def selectEndpoint (w : World ε) (r : Sampling urls) : World ε × ServiceEndpoint urls :=
  let domain := selectionDomain r.candidates.snapshot
  let states := retained ((w.domains.get? domain).getD .empty) r.candidates.endpoints
  let chosen :=
    match r.sampled with
    | none => (w.ledger, states, r.candidates.first)
    | some pair => ewmaEndpoint w.ledger states pair.1 pair.2 r.now
  let selected := ewmaEndpointState chosen.1 chosen.2.1 chosen.2.2
  (⟨startEWMAObservation selected.1 selected.2.2 r.now,
    w.domains.remember maximumSelectionDomains domain selected.2.1⟩, chosen.2.2)

/-! ### Completions -/

/-- What the caller's classifier does. -/
inductive CallbackResult (ε : Type) where
  | boolean (value : Bool)
  /-- It returns something that is not a Boolean. -/
  | other
  | throws (cause : ε)
  /-- It throws something that can be awaited. -/
  | throwsThenable

/-- Whether an outcome is a failure. The standard classification reads the error's properties. -/
def isEWMAFailure (hasCallback : Bool) (error : Option ε)
    (standard : Except (SelectorError ε) Bool) (callback : CallbackResult ε) :
    Except (SelectorError ε) Bool :=
  match error with
  | none => .ok false
  | some _ =>
      match standard with
      | .error cause => .error cause
      | .ok true => .ok true
      | .ok false =>
          if hasCallback then
            match callback with
            | .boolean value => .ok value
            | .other => .error (.typeError "EWMA selector isFailure must return a boolean")
            | .throws cause => .error (.thrown cause)
            | .throwsThenable =>
                .error (.typeError "EWMA selector isFailure callback must be synchronous")
          else .ok false

/-- The factor by which the values before a completion count. The first latency counts alone. -/
def decayFactor (decay : Decay) (state : EWMAEndpointState ε) (completedAt : ℚ) : ℚ :=
  if state.latencyMs = 0 then 0 else decay.factor (max state.stamp completedAt - state.stamp)

/-- The state of an endpoint after a completion of a selection that was observed. -/
def settled (decay : Decay) (state : EWMAEndpointState ε) (observation : EWMAObservation)
    (completedAt : ℚ) (failed : Bool) : EWMAEndpointState ε :=
  let elapsed := max (completedAt - observation.startedAt) 0
  let factor := decayFactor decay state completedAt
  let health := if failed then 0 else EWMAHealthScale
  { state with
    observations :=
      if observation.tracked ∧ state.observations observation.slot = some observation then
        Function.update state.observations observation.slot none
      else state.observations
    inFlight := state.inFlight - 1
    latencyMs := state.latencyMs * factor + elapsed * (1 - factor)
    success := trunc (state.success * factor + health * (1 - factor))
    stamp := max state.stamp completedAt }

/-- What a call throws. -/
inductive CallError (ε : Type) where
  | single (error : SelectorError ε)
  /-- Several completions of an endpoint have failed. -/
  | aggregate (errors : List (SelectorError ε))

/-- How a call goes on: it reads something of the caller, or it has ended. -/
inductive Reply (ε : Type) (urls : UrlParser) where
  | reads
  | selected (endpoint : ServiceEndpoint urls) (selection : ℕ)
  | returned
  | threw (error : CallError ε)

/-- How a call ends when all the completions of an endpoint have been run. -/
def completionReply (urls : UrlParser) : List (SelectorError ε) → Reply ε urls
  | [] => .returned
  | [error] => .threw (.single error)
  | errors => .threw (.aggregate errors)

/-- What a completion reads: the clock, then the classification of its error. -/
def readCompletion (hasCallback : Bool) (error : Option ε) (clock : SourceResult ε)
    (standard : Except (SelectorError ε) Bool) (callback : CallbackResult ε) :
    Except (SelectorError ε) (ℚ × Bool) := do
  let completedAt ← monotonicNow clock
  let failed ← isEWMAFailure hasCallback error standard callback
  .ok (completedAt, failed)

/-- The running completion of an endpoint ends. One that throws may be called again. -/
def settleEWMASelection (decay : Decay) (l : Ledger ε) (s d : ℕ)
    (read : Except (SelectorError ε) (ℚ × Bool)) : Ledger ε :=
  let state := l.states s
  match read with
  | .error cause =>
      (l.setState s { state with failures := state.failures ++ [cause] }).setCompletion d .opened
  | .ok (completedAt, failed) =>
      (l.setState s
        (settled decay state (l.selections d).observation completedAt failed)).setCompletion
          d .completed

/-- The state of an endpoint when a completion has ended, and others wait. -/
def completionEnded (state : EWMAEndpointState ε) (others : List (QueuedCompletion ε)) :
    EWMAEndpointState ε :=
  { state with
    completionActive := !others.isEmpty
    completionQueue := others
    failures := if others.isEmpty then [] else state.failures }

/-- The next completion of an endpoint runs, or the call that ran them ends. -/
def nextCompletion (urls : UrlParser) (l : Ledger ε) (s : ℕ) (others : List (QueuedCompletion ε)) :
    Ledger ε × Reply ε urls :=
  let state := l.states s
  (l.setState s (completionEnded state others),
    if others.isEmpty then completionReply urls state.failures else .reads)

/-- A callback has read its context and its outcome: its completion waits for its turn. -/
def queueCompletion (urls : UrlParser) (l : Ledger ε) (d : ℕ) (error : Option ε) :
    Ledger ε × Reply ε urls :=
  let s := (l.selections d).state
  let state := l.states s
  ((l.setState s
      { state with
        completionActive := true
        completionQueue := state.completionQueue ++ [⟨d, error⟩] }).setCompletion d .queued,
    if state.completionActive then .returned else .reads)

/-! ### Steps -/

/-- What a caller does, with what the code of the caller does when it is read. -/
inductive Event (ε : Type) where
  | select (call : SelectCall ε) (clock first second : SourceResult ε)
  | done (selection : ℕ)
  /-- The context has not ended, and the outcome has been read. -/
  | admits (selection : ℕ) (error : Option ε)
  /-- The context has ended, or reading it or the outcome throws. -/
  | refuses (selection : ℕ) (cause : SelectorError ε)
  /-- The running completion of an endpoint has read the clock, and has classified its error. -/
  | settles (state : ℕ) (clock : SourceResult ε) (standard : Except (SelectorError ε) Bool)
      (callback : CallbackResult ε)

/-- What a caller does, when it can. -/
def step (urls : UrlParser) (decay : Decay) (hasCallback : Bool) (w : World ε) :
    Event ε → Option (World ε × Reply ε urls)
  | .select call clock first second =>
      match readSelection urls call clock first second with
      | .error cause => some (w, .threw (.single cause))
      | .ok r =>
          let selected := selectEndpoint w r
          some (selected.1, .selected selected.2 w.ledger.selectionCount)
  | .done d =>
      if d < w.ledger.selectionCount then
        if (w.ledger.selections d).completion = .opened then
          some ({ w with ledger := w.ledger.setCompletion d .admitting }, .reads)
        else some (w, .returned)
      else none
  | .admits d error =>
      if d < w.ledger.selectionCount ∧ (w.ledger.selections d).completion = .admitting then
        let queued := queueCompletion urls w.ledger d error
        some ({ w with ledger := queued.1 }, queued.2)
      else none
  | .refuses d cause =>
      if d < w.ledger.selectionCount ∧ (w.ledger.selections d).completion = .admitting then
        some ({ w with ledger := w.ledger.setCompletion d .opened }, .threw (.single cause))
      else none
  | .settles s clock standard callback =>
      match (w.ledger.states s).completionQueue with
      | [] => none
      | queued :: others =>
          let read := readCompletion hasCallback queued.failure clock standard callback
          let l := settleEWMASelection decay w.ledger s queued.selection read
          let next := nextCompletion urls l s others
          some ({ w with ledger := next.1 }, next.2)

/-- A selector is run over what its caller does. -/
def run (urls : UrlParser) (decay : Decay) (hasCallback : Bool) (w : World ε) :
    List (Event ε) → Option (World ε)
  | [] => some w
  | event :: events =>
      match step urls decay hasCallback w event with
      | none => none
      | some (w, _) => run urls decay hasCallback w events

end Registry.EWMA
