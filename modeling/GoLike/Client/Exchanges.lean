import GoLike.Client.Pool
import GoLike.Transport.BodyObserver

/-!
# Exchanges

An attempt that has its response either gives its owner back itself, or hands the body on under
an observer, whose report gives the owner back. How each exchange has ended is kept, next to the
owner that carried it.
-/

open Transport

namespace Client

/-- How an exchange has ended. -/
inductive ExchangeEnd where
  | completed
  /-- The client had been closed when the dial resolved. -/
  | lateDial
  /-- The request could not be built, or the fetch rejected. -/
  | fetchFailed
  /-- The response breaks the protocol. -/
  | refused
  /-- The response has a status that is not successful. -/
  | statusFailed
  /-- The response does not match its struct, or could not be read. -/
  | invalid
  /-- A read of the body has failed. -/
  | bodyFailed
  | bodyCanceled
  deriving DecidableEq

/-- How an exchange has ended whose body is observed. -/
def ExchangeEnd.ofBody : BodyEnd → ExchangeEnd
  | .finished => .completed
  | .terminal _ => .completed
  | .failed => .bodyFailed
  | .canceled => .bodyCanceled

variable {A : Type}

/-- A client with the bodies that it has handed on. -/
structure Exchanges (A : Type) where
  client : PooledClient A
  bodies : ℕ → Option ObservedBody
  /-- The exchanges that have ended, in order. Nothing depends on them. -/
  ended : List (Owner A × ExchangeEnd)

/-- What happens to a client. Attempts are named by their numbers. -/
inductive ExchangeEvent (A : Type) where
  | begins (i : ℕ) (streaming typed : Bool)
  /-- The service cannot be resolved, or no address is selected. -/
  | fails (i : ℕ)
  | acquires (i : ℕ) (address : A)
  /-- The dial rejects, or what it resolves to is no transport client. -/
  | dialRejects (i : ℕ) (address : A)
  | dialResolves (i : ℕ) (address : A)
  | fetchRejects (i : ℕ) (client : Owner A)
  /-- The transport answers. The observers deliver an event stream, or another body. -/
  | responds (i : ℕ) (client : Owner A) (reply : Reply) (deliversEvents : Bool)
  /-- The body of a failed response has been decoded. -/
  | decoded (i : ℕ) (client : Owner A)
  | validated (i : ℕ) (client : Owner A) (valid : Bool)
  | body (i : ℕ) (event : BodyEvent)
  | timerFires (client : Owner A) (timer : ℕ)
  | closeCalled (client : Owner A)
  | closeSettles (client : Owner A)
  | closes

deriving instance DecidableEq for AttemptStage

variable [DecidableEq A] (maxIdle idleTtlMs : ℕ) (numberValue : List UInt16 → JsNumber)

/-- The observer of an attempt has no signal, and cancels its source after a terminal event. -/
def heldOptions : ObserveOptions := ⟨false, true⟩

namespace Exchanges

/-- An attempt that is at a stage. -/
def reached (s : Exchanges A) (i : ℕ) (stage : AttemptStage A) : Option (Attempt A) :=
  (s.client.attempts i).filter fun a => a.stage = stage

/-- The client changes. -/
def withClient (s : Exchanges A) (client : PooledClient A) : Exchanges A :=
  { s with client := client }

/-- An exchange ends, and its owner is given back. -/
def release (s : Exchanges A) (i : ℕ) (a : Attempt A) (client : Owner A) (how : ExchangeEnd)
    (reusable : Bool) : Exchanges A :=
  { s with
    client := s.client.release maxIdle idleTtlMs i a client reusable
    ended := s.ended ++ [(client, how)] }

/-- The dial of an attempt has resolved. -/
def admitDialed (s : Exchanges A) (i : ℕ) (a : Attempt A) (address : A) : Exchanges A :=
  { s with
    client := s.client.admitDialed i a address
    ended :=
      if s.client.pool.closed then s.ended ++ [((s.client.pool.admitOwner address).1, .lateDial)]
      else s.ended }

/-- The transport has answered an attempt. -/
def respond (s : Exchanges A) (i : ℕ) (a : Attempt A) (client : Owner A) (reply : Reply)
    (deliversEvents : Bool) : Exchanges A :=
  match a.judge reply with
  | .decode => s.withClient (s.client.setAttempt i { a with stage := .decoding client })
  | .throw => s.release maxIdle idleTtlMs i a client .refused false
  | .validate => s.withClient (s.client.setAttempt i { a with stage := .validating client })
  | .hold =>
      { s with
        client := s.client.setAttempt i { a with stage := .held client }
        bodies := Function.update s.bodies i (some (observeBody deliversEvents)) }
  | .complete => s.release maxIdle idleTtlMs i a client .completed true

/-- The observer of a body reports, however the body has ended. -/
def releaseHeld (s : Exchanges A) (i : ℕ) (how : BodyEnd) : Exchanges A :=
  match s.client.attempts i with
  | none => s
  | some a =>
      match a.stage with
      | .held client => s.release maxIdle idleTtlMs i a client (.ofBody how) true
      | _ => s

/-- Something has happened to a body. -/
def observe (s : Exchanges A) (i : ℕ) (b b' : ObservedBody) : Exchanges A :=
  let s := { s with bodies := Function.update s.bodies i (some b') }
  match b.reported, b'.reported with
  | none, some how => s.releaseHeld maxIdle idleTtlMs i how
  | _, _ => s

/-- Something happens to a client, if it can. -/
def step (s : Exchanges A) : ExchangeEvent A → Option (Exchanges A)
  | .begins i streaming typed =>
      if s.client.attempts i = none then
        some (s.withClient (s.client.setAttempt i ⟨streaming, typed, .begun⟩))
      else none
  | .fails i =>
      (s.reached i .begun).map fun a =>
        s.withClient (s.client.setAttempt i { a with stage := .ended })
  | .acquires i address =>
      (s.reached i .begun).map fun a => s.withClient (s.client.acquire i a address)
  | .dialRejects i address =>
      (s.reached i (.dialing address)).map fun a =>
        s.withClient (s.client.setAttempt i { a with stage := .ended })
  | .dialResolves i address =>
      (s.reached i (.dialing address)).map fun a => s.admitDialed i a address
  | .fetchRejects i client =>
      (s.reached i (.fetching client)).map fun a =>
        s.release maxIdle idleTtlMs i a client .fetchFailed false
  | .responds i client reply deliversEvents =>
      (s.reached i (.fetching client)).map fun a =>
        s.respond maxIdle idleTtlMs i a client reply deliversEvents
  | .decoded i client =>
      (s.reached i (.decoding client)).map fun a =>
        s.release maxIdle idleTtlMs i a client .statusFailed false
  | .validated i client valid =>
      (s.reached i (.validating client)).map fun a =>
        s.release maxIdle idleTtlMs i a client (if valid then .completed else .invalid) valid
  | .body i event =>
      match s.bodies i with
      | none => none
      | some b =>
          (b.step numberValue heldOptions event).map fun b' => s.observe maxIdle idleTtlMs i b b'
  | .timerFires client timer =>
      some (s.withClient { s.client with pool := s.client.pool.expireIdleOwner client timer })
  | .closeCalled client =>
      if (s.client.pool.residents client).closing = some .scheduled then
        some (s.withClient { s.client with pool := s.client.pool.callClose client })
      else none
  | .closeSettles client =>
      if (s.client.pool.residents client).closing = some .called then
        some (s.withClient { s.client with pool := s.client.pool.forgetTransportOwner client })
      else none
  | .closes => some (s.withClient { s.client with pool := s.client.pool.beginTransportClose })

/-- A client is run over what happens to it. -/
def run (s : Exchanges A) (events : List (ExchangeEvent A)) : Option (Exchanges A) :=
  events.foldlM (step maxIdle idleTtlMs numberValue) s

/-- An owner cannot become idle: the client is closed, keeps no idle owners, or closes this one. -/
def Discards (s : Exchanges A) (client : Owner A) : Prop :=
  s.client.pool.closed = true ∨ maxIdle = 0 ∨ (s.client.pool.residents client).closing ≠ none

/-- A read of a body that holds its owner fails, or the body is canceled, only where the owner
cannot become idle. -/
def Spares (s : Exchanges A) (event : ExchangeEvent A) : Prop :=
  ∀ i e a client, event = .body i e → e.interrupts = true → s.client.attempts i = some a →
    a.stage = .held client → s.Discards maxIdle client

end Exchanges

end Client
