import GoLike.Registry.Selector.Cursors
import Mathlib.Data.Rat.Floor

/-!
# Power of two choices

A selector samples two of the endpoints that are not in cooldown, and selects the one with fewer
requests in flight. A selection is done when its callback has been called with an outcome;
failures put an endpoint in cooldown.

The clock, the source of random numbers, the contexts and the outcomes are given by the caller.
While one of them is read, the caller may make other calls of the selector. So a call proceeds in
steps, and the calls that have not returned stand on a stack.
-/

open Store

namespace Registry.P2C

variable {urls : UrlParser} {ε : Type}

/-! ### Numbers -/

/-- How products and sums of numbers are rounded. A sum is `none` when it is not finite. -/
structure Arithmetic where
  product : ℚ → ℕ → ℚ
  sum : ℚ → ℕ → Option ℚ

/-- What a source of numbers does. -/
inductive SourceResult (ε : Type) where
  | number (value : JsNumber)
  /-- It returns something that is not a number. -/
  | other
  | throws (cause : ε)
  /-- It throws something that can be awaited. -/
  | throwsThenable

/-- The finite number that a source returns, when it is valid. -/
def sourceNumber (asynchronous invalid : String) (valid : ℚ → Bool) (result : SourceResult ε) :
    Except (SelectorError ε) ℚ :=
  match result with
  | .throws cause => .error (.thrown cause)
  | .throwsThenable => .error (.typeError asynchronous)
  | .other => .error (.typeError invalid)
  | .number value =>
      match value.toRat? with
      | none => .error (.typeError invalid)
      | some q => if valid q then .ok q else .error (.typeError invalid)

/-- What the clock shows. -/
def monotonicNow (result : SourceResult ε) : Except (SelectorError ε) ℚ :=
  sourceNumber "P2C selector clock callback must be synchronous"
    "P2C selector clock must return a finite non-negative number" (fun q => 0 ≤ q) result

/-- A random number. -/
def randomSample (result : SourceResult ε) : Except (SelectorError ε) ℚ :=
  sourceNumber "selector random callback must be synchronous"
    "selector random must return a finite number from 0 inclusive to 1 exclusive"
    (fun q => 0 ≤ q ∧ q < 1) result

/-! ### Options -/

def DefaultFailureThreshold : ℕ := 3

def DefaultCooldownMs : ℕ := 10000

def MaximumFailureThreshold : ℕ := 1000

def MaximumCooldownMs : ℕ := 2147483647

/-- An integer setting within bounds. -/
def selectorInteger (value : Option JsNumber) (fallback minimum maximum : ℕ) (name : String) :
    Except (SelectorError ε) ℕ :=
  let message := name ++ " must be an integer from " ++ toString minimum ++ " to " ++
    toString maximum
  match (value.getD (.ofNat fallback)).toSafeNat? with
  | none => .error (.typeError message)
  | some n => if minimum ≤ n ∧ n ≤ maximum then .ok n else .error (.typeError message)

structure P2CSelectorOptions where
  failureThreshold : Option JsNumber
  cooldownMs : Option JsNumber

/-- The settings of a selector. -/
structure P2CSelector where
  arithmetic : Arithmetic
  failureThreshold : ℕ
  cooldownMs : ℕ

/-- The selector that is created with options. -/
def newP2CSelector (arithmetic : Arithmetic) (options : P2CSelectorOptions) :
    Except (SelectorError ε) P2CSelector := do
  let failureThreshold ← selectorInteger options.failureThreshold DefaultFailureThreshold 1
    MaximumFailureThreshold "P2C selector failureThreshold"
  let cooldownMs ← selectorInteger options.cooldownMs DefaultCooldownMs 1 MaximumCooldownMs
    "P2C selector cooldownMs"
  .ok ⟨arithmetic, failureThreshold, cooldownMs⟩

/-! ### The ledger of endpoint states -/

/-- A completion waits for its turn: a selection is done, with a failure or without one. -/
structure QueuedCompletion (ε : Type) where
  selection : ℕ
  failure : Option ε

/-- The state of an endpoint. -/
structure P2CEndpointState (ε : Type) where
  inFlight : ℤ
  consecutiveFailures : ℕ
  cooldownUntil : ℚ
  completionActive : Bool
  /-- The completions that have not begun. -/
  completionQueue : List (QueuedCompletion ε)

/-- How far the callback of a selection has got. -/
inductive Completion where
  | opened
  | admitting
  | queued
  | completed
  deriving DecidableEq

/-- A selection that has been issued, with the endpoint state it counts in. -/
structure IssuedSelection where
  state : ℕ
  completion : Completion

/-- The endpoint states and the selections that have been issued, by their numbers. -/
structure Ledger (ε : Type) where
  states : ℕ → P2CEndpointState ε
  stateCount : ℕ
  selections : ℕ → IssuedSelection
  selectionCount : ℕ
  /-- The selections whose callbacks have taken effect, in order. -/
  effects : List ℕ

/-- The state of an endpoint that has not been selected yet. -/
def newEndpointState : P2CEndpointState ε := ⟨0, 0, 0, false, []⟩

namespace Ledger

/-- Change an endpoint state. -/
def setState (l : Ledger ε) (s : ℕ) (state : P2CEndpointState ε) : Ledger ε :=
  { l with states := Function.update l.states s state }

/-- Change how far a callback has got. -/
def setCompletion (l : Ledger ε) (d : ℕ) (completion : Completion) : Ledger ε :=
  { l with
    selections := Function.update l.selections d ⟨(l.selections d).state, completion⟩ }

/-- Create an endpoint state. -/
def create (l : Ledger ε) : Ledger ε :=
  { l.setState l.stateCount newEndpointState with stateCount := l.stateCount + 1 }

/-- Issue a selection that counts in an endpoint state. -/
def issue (l : Ledger ε) (s : ℕ) : Ledger ε :=
  { l.setState s { l.states s with inFlight := (l.states s).inFlight + 1 } with
    selections := Function.update l.selections l.selectionCount ⟨s, .opened⟩
    selectionCount := l.selectionCount + 1 }

/-- Take the first completion of the queue. -/
def begin (l : Ledger ε) (s : ℕ) (others : List (QueuedCompletion ε)) : Ledger ε :=
  l.setState s { l.states s with completionQueue := others }

/-- A completion takes effect. -/
def settle (l : Ledger ε) (s d failures : ℕ) (deadline : ℚ) : Ledger ε :=
  { (l.setState s
      { l.states s with
        inFlight := (l.states s).inFlight - 1
        consecutiveFailures := failures
        cooldownUntil := deadline }).setCompletion d .completed with
    effects := l.effects ++ [d] }

end Ledger

/-! ### Completions -/

/-- What a call throws. -/
inductive P2CError (ε : Type) where
  | single (error : SelectorError ε)
  /-- Several completions of an endpoint have failed. -/
  | aggregate (errors : List (SelectorError ε))

/-- How a call goes on: it reads something of the caller, or it has ended. -/
inductive Reply (ε : Type) (urls : UrlParser) where
  | reads
  | selected (endpoint : ServiceEndpoint urls) (selection : ℕ)
  | returned
  | threw (error : P2CError ε)

/-- A completion reads the clock. -/
structure Settling (ε : Type) where
  state : ℕ
  selection : ℕ
  failures : ℕ
  /-- The errors of the completions before it. -/
  errors : List (SelectorError ε)

/-- A cooldown deadline, which is finite. -/
def cooldownDeadline (b : P2CSelector) (now : ℚ) : ℚ :=
  (b.arithmetic.sum now b.cooldownMs).getD ((2 ^ 53 - 1) * 2 ^ 971)

/-- How a call ends when all the completions of an endpoint have been run. -/
def completionReply (urls : UrlParser) : List (SelectorError ε) → Reply ε urls
  | [] => .returned
  | [error] => .threw (.single error)
  | errors => .threw (.aggregate errors)

/-- Run the completions of an endpoint, until one of them reads the clock. -/
def runSerializedCompletion (b : P2CSelector) (urls : UrlParser) (s : ℕ)
    (errors : List (SelectorError ε)) (l : Ledger ε) :
    List (QueuedCompletion ε) → Ledger ε × Option (Settling ε) × Reply ε urls
  | [] =>
      (l.setState s { l.states s with completionActive := false, completionQueue := [] }, none,
        completionReply urls errors)
  | queued :: others =>
      let l := l.begin s others
      match queued.failure with
      | none =>
          runSerializedCompletion b urls s errors (l.settle s queued.selection 0 0) others
      | some _ =>
          let nextFailures := (l.states s).consecutiveFailures + 1
          if b.failureThreshold ≤ nextFailures then
            (l, some ⟨s, queued.selection, nextFailures, errors⟩, .reads)
          else
            runSerializedCompletion b urls s errors
              (l.settle s queued.selection nextFailures (l.states s).cooldownUntil) others

/-- The completion that reads the clock goes on, and the others after it. -/
def settleCompletion (b : P2CSelector) (urls : UrlParser) (f : Settling ε)
    (result : SourceResult ε) (l : Ledger ε) :
    Ledger ε × Option (Settling ε) × Reply ε urls :=
  let queue := (l.states f.state).completionQueue
  match monotonicNow result with
  | .error error =>
      runSerializedCompletion b urls f.state (f.errors ++ [error])
        (l.setCompletion f.selection .opened) queue
  | .ok now =>
      runSerializedCompletion b urls f.state f.errors
        (l.settle f.state f.selection f.failures (cooldownDeadline b now)) queue

/-- A callback is called with an outcome: its completion waits for its turn, and runs if no other
one does. -/
def queueCompletion (b : P2CSelector) (urls : UrlParser) (d : ℕ) (failure : Option ε)
    (l : Ledger ε) : Ledger ε × Option (Settling ε) × Reply ε urls :=
  let s := (l.selections d).state
  let state := l.states s
  let queue := state.completionQueue ++ [⟨d, failure⟩]
  let l := l.setCompletion d .queued
  if state.completionActive then
    (l.setState s { state with completionQueue := queue }, none, .returned)
  else
    runSerializedCompletion b urls s []
      (l.setState s { state with completionActive := true, completionQueue := queue }) queue

/-! ### The directory of domains -/

/-- The domains that are kept, and the endpoint states of the domain states, by their numbers. -/
structure Directory where
  domains : JsMap JsString ℕ
  endpoints : ℕ → JsMap JsString ℕ
  domainCount : ℕ

/-- Retain the state of an endpoint, when it has one. -/
def retainState (states active : JsMap JsString ℕ) (e : ServiceEndpoint urls) :
    JsMap JsString ℕ :=
  match states.get? (endpointIdentity e) with
  | some state => active.set (endpointIdentity e) state
  | none => active

/-- The states of the given endpoints. -/
def retained (states : JsMap JsString ℕ) (endpoints : List (ServiceEndpoint urls)) :
    JsMap JsString ℕ :=
  endpoints.foldl (retainState states) .empty

/-- The state of an endpoint. -/
def endpointState (l : Ledger ε) (states : JsMap JsString ℕ) (e : ServiceEndpoint urls) :
    P2CEndpointState ε :=
  ((states.get? (endpointIdentity e)).map l.states).getD newEndpointState

def endpointInFlight (l : Ledger ε) (states : JsMap JsString ℕ) (e : ServiceEndpoint urls) : ℤ :=
  (endpointState l states e).inFlight

def endpointCooldown (l : Ledger ε) (states : JsMap JsString ℕ) (e : ServiceEndpoint urls) : ℚ :=
  (endpointState l states e).cooldownUntil

/-! ### Choices -/

/-- The first endpoint with the earliest deadline. -/
def earliestCooldownEndpoint (l : Ledger ε) (states : JsMap JsString ℕ)
    (first : ServiceEndpoint urls) (rest : List (ServiceEndpoint urls)) : ServiceEndpoint urls :=
  rest.foldl (fun selected candidate =>
    if endpointCooldown l states candidate < endpointCooldown l states selected then candidate
    else selected) first

/-- The endpoints whose cooldown has passed. -/
def eligibleP2CEndpoints (l : Ledger ε) (states : JsMap JsString ℕ) (now : ℚ)
    (endpoints : List (ServiceEndpoint urls)) : List (ServiceEndpoint urls) :=
  endpoints.filter (fun e => endpointCooldown l states e ≤ now)

/-- The index of a sample. -/
def sampledIndex (b : P2CSelector) (sample : ℚ) (count : ℕ) : ℕ :=
  ⌊b.arithmetic.product sample count⌋.toNat

/-- The endpoint with fewer requests in flight of two samples. -/
def sampledP2CEndpoint (b : P2CSelector) (l : Ledger ε) (states : JsMap JsString ℕ)
    (first : ServiceEndpoint urls) (rest : List (ServiceEndpoint urls))
    (firstSample secondSample : ℚ) : ServiceEndpoint urls :=
  let firstIndex := sampledIndex b firstSample (rest.length + 1)
  let secondBase := sampledIndex b secondSample rest.length
  let secondIndex := if firstIndex ≤ secondBase then secondBase + 1 else secondBase
  let a := itemAt first rest firstIndex
  let c := itemAt first rest secondIndex
  if endpointInFlight l states c < endpointInFlight l states a then c else a

/-- The endpoint that is selected, when the samples that have been taken determine it. -/
def p2cEndpoint (b : P2CSelector) (l : Ledger ε) (states : JsMap JsString ℕ)
    (first : ServiceEndpoint urls) (rest : List (ServiceEndpoint urls)) (now : ℚ)
    (samples : Option (ℚ × ℚ)) : Option (ServiceEndpoint urls) :=
  match eligibleP2CEndpoints l states now (first :: rest) with
  | [] => some (earliestCooldownEndpoint l states first rest)
  | [e] => some e
  | e :: es => samples.map (fun s => sampledP2CEndpoint b l states e es s.1 s.2)

/-! ### Calls -/

/-- What a selection has read. -/
inductive SelectPhase where
  | clock
  | firstSample (now : ℚ)
  | secondSample (now firstSample : ℚ)

/-- The domain of a selection, and its domain state. -/
structure Holding where
  domain : JsString
  /-- The domain was not kept when the selection began. -/
  fresh : Bool
  state : ℕ

/-- A selection reads the clock or the source of random numbers. -/
structure Selecting (urls : UrlParser) extends Holding where
  first : ServiceEndpoint urls
  rest : List (ServiceEndpoint urls)
  phase : SelectPhase

/-- A call that has not returned. -/
inductive Frame (ε : Type) (urls : UrlParser) where
  | selecting (f : Selecting urls)
  /-- A callback reads its context and its outcome. -/
  | admitting (selection : ℕ)
  | settling (f : Settling ε)

/-- The state of a selector, and the calls that have not returned. -/
structure World (ε : Type) (urls : UrlParser) where
  ledger : Ledger ε
  directory : Directory
  stack : List (Frame ε urls)

/-- What a caller does. -/
inductive Event (ε : Type) (urls : UrlParser) where
  | select (call : SelectCall ε)
  | done (selection : ℕ)
  /-- The clock or the source of random numbers is read. -/
  | answer (result : SourceResult ε)
  /-- The context has not ended, and the outcome is read. -/
  | admits (failure : Option ε)
  /-- The context has ended, or reading it or the outcome throws. -/
  | refuse (error : SelectorError ε)

/-- The ledger without selections. -/
def newLedger : Ledger ε where
  states := fun _ => newEndpointState
  stateCount := 0
  selections := fun _ => ⟨0, .opened⟩
  selectionCount := 0
  effects := []

/-- The directory without domains. -/
def newDirectory : Directory := ⟨.empty, fun _ => .empty, 0⟩

/-- A selector that has been created. -/
def newWorld : World ε urls := ⟨newLedger, newDirectory, []⟩

/-- Keep a domain, with a new domain state. -/
def Directory.add (directory : Directory) (domain : JsString) : Directory where
  domains := directory.domains.set domain directory.domainCount
  endpoints := Function.update directory.endpoints directory.domainCount .empty
  domainCount := directory.domainCount + 1

/-- The domain of a selection becomes the newest one, with new endpoint states. -/
def Directory.finish (directory : Directory) (f : Holding) (states : JsMap JsString ℕ) :
    Directory :=
  { directory with
    endpoints := Function.update directory.endpoints f.state states
    domains := directory.domains.remember maximumSelectionDomains f.domain f.state }

/-- A selection begins: its domain is kept from now on. -/
def beginSelect (w : World ε urls) (call : SelectCall ε) : World ε urls × Reply ε urls :=
  match candidates urls call with
  | .error e => (w, .threw (.single e))
  | .ok c =>
      let domain := selectionDomain c.snapshot
      match w.directory.domains.get? domain with
      | some state =>
          ({ w with
              stack := .selecting ⟨⟨domain, false, state⟩, c.first, c.rest, .clock⟩ :: w.stack },
            .reads)
      | none =>
          let state := w.directory.domainCount
          ({ w with
              directory := w.directory.add domain
              stack := .selecting ⟨⟨domain, true, state⟩, c.first, c.rest, .clock⟩ :: w.stack },
            .reads)

/-- A selection throws. A domain that it has added, and that has no endpoint states, is deleted. -/
def abortSelect (directory : Directory) (f : Holding) : Directory :=
  if f.fresh = true ∧ (directory.endpoints f.state).size = 0 ∧
      directory.domains.get? f.domain = some f.state then
    { directory with domains := directory.domains.delete f.domain }
  else directory

/-- The endpoint states of a domain after a selection, with that of the selected endpoint. -/
def selectedP2CState (l : Ledger ε) (states : JsMap JsString ℕ)
    (endpoints : List (ServiceEndpoint urls)) (selected : ServiceEndpoint urls) :
    Ledger ε × JsMap JsString ℕ × ℕ :=
  let active := retained states endpoints
  match active.get? (endpointIdentity selected) with
  | some state => (l, active, state)
  | none => (l.create, active.set (endpointIdentity selected) l.stateCount, l.stateCount)

/-- An endpoint is selected. -/
def finishSelect (l : Ledger ε) (directory : Directory) (f : Selecting urls)
    (selected : ServiceEndpoint urls) : Ledger ε × Directory :=
  let chosen :=
    selectedP2CState l (directory.endpoints f.state) (f.first :: f.rest) selected
  (chosen.1.issue chosen.2.2, directory.finish f.toHolding chosen.2.1)

/-- A selection goes on when it has read the clock and the samples so far. -/
def proceedSelect (b : P2CSelector) (w : World ε urls) (f : Selecting urls) (now : ℚ)
    (samples : Option (ℚ × ℚ)) (next : SelectPhase) : World ε urls × Reply ε urls :=
  match p2cEndpoint b w.ledger (w.directory.endpoints f.state) f.first f.rest now samples with
  | some selected =>
      let done := finishSelect w.ledger w.directory f selected
      (⟨done.1, done.2, w.stack⟩, .selected selected w.ledger.selectionCount)
  | none => ({ w with stack := .selecting { f with phase := next } :: w.stack }, .reads)

/-- A selection has read a number. The stack is that of the calls below it. -/
def answerSelect (b : P2CSelector) (w : World ε urls) (f : Selecting urls)
    (result : SourceResult ε) : World ε urls × Reply ε urls :=
  let abort (e : SelectorError ε) : World ε urls × Reply ε urls :=
    ({ w with directory := abortSelect w.directory f.toHolding }, .threw (.single e))
  match f.phase with
  | .clock =>
      match monotonicNow result with
      | .error e => abort e
      | .ok now => proceedSelect b w f now none (.firstSample now)
  | .firstSample now =>
      match randomSample result with
      | .error e => abort e
      | .ok sample => proceedSelect b w f now none (.secondSample now sample)
  | .secondSample now firstSample =>
      match randomSample result with
      | .error e => abort e
      | .ok sample =>
          proceedSelect b w f now (some (firstSample, sample)) (.secondSample now firstSample)

/-- The world after completions have been run. -/
def afterCompletions (w : World ε urls)
    (outcome : Ledger ε × Option (Settling ε) × Reply ε urls) : World ε urls × Reply ε urls :=
  ({ w with
      ledger := outcome.1
      stack := (outcome.2.1.map .settling).toList ++ w.stack },
    outcome.2.2)

/-- What a caller does, when it can. -/
def step (b : P2CSelector) (w : World ε urls) : Event ε urls → Option (World ε urls × Reply ε urls)
  | .select call => some (beginSelect w call)
  | .done d =>
      if d < w.ledger.selectionCount then
        match (w.ledger.selections d).completion with
        | .opened =>
            some ({ w with
              ledger := w.ledger.setCompletion d .admitting
              stack := .admitting d :: w.stack }, .reads)
        | _ => some (w, .returned)
      else none
  | .answer result =>
      match w.stack with
      | .selecting f :: stack => some (answerSelect b { w with stack := stack } f result)
      | .settling f :: stack =>
          some (afterCompletions { w with stack := stack }
            (settleCompletion b urls f result w.ledger))
      | _ => none
  | .admits failure =>
      match w.stack with
      | .admitting d :: stack =>
          some (afterCompletions { w with stack := stack }
            (queueCompletion b urls d failure w.ledger))
      | _ => none
  | .refuse e =>
      match w.stack with
      | .admitting d :: stack =>
          some ({ w with ledger := w.ledger.setCompletion d .opened, stack := stack },
            .threw (.single e))
      | _ => none

end Registry.P2C
