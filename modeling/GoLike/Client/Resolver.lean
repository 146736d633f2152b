import Mathlib.Data.List.Basic
import Mathlib.Logic.Relation

/-!
# The discovery resolver

The resolver keeps a snapshot of the instances of every service that has been asked for. It
opens a watcher of the service before it reads the first snapshot. The first delivery of a
watcher is a signal to read again, and every later one is a snapshot. A watcher that fails is
stopped and reopened after a delay, and a reopened one is followed by a read before it is waited
for. The instances of a service change in the registry; a state of the registry is the number of
changes that led to it.
-/

namespace Client

/-! ### Services -/

/-- A watcher that has been opened. -/
structure Watch where
  /-- The state at which it was opened, or that of the last delivery that was consumed. Nothing
  depends on it. -/
  consumed : ℕ
  /-- The states of the deliveries that have not been consumed. -/
  queue : List ℕ

/-- The state of the last delivery of a watcher, or the one at which it was opened. -/
def Watch.last (w : Watch) : ℕ := w.queue.getLast?.getD w.consumed

/-- A watcher delivers a state. -/
def Watch.deliver (w : Watch) (state : ℕ) : Watch := { w with queue := w.queue ++ [state] }

/-- Whether the watcher of a service has been stopped. -/
inductive Shutdown where
  | running
  | stopping
  | failed
  deriving DecidableEq

/-- How far a service has got. A read is in flight since a state. -/
inductive Stage where
  /-- The service has not been asked for, or could not be opened. -/
  | absent
  | opening
  | openRead (watch : Watch) (since : ℕ)
  | rollback
  /-- The first delivery is waited for. -/
  | first (watch : Watch)
  | firstRead (watch : Watch) (since : ℕ)
  | following (watch : Watch)
  /-- The watcher has failed, and is being stopped. -/
  | failing (runtimeFailure : Bool)
  | backoff
  | reopening
  | reopenRead (watch : Watch) (since : ℕ)
  | ended

/-- The watcher that is consumed, or is about to be. -/
def Stage.watch : Stage → Option Watch
  | .openRead watch _ => some watch
  | .first watch => some watch
  | .firstRead watch _ => some watch
  | .following watch => some watch
  | .reopenRead watch _ => some watch
  | _ => none

/-- The stage with another watcher. -/
def Stage.setWatch (watch : Watch) : Stage → Stage
  | .openRead _ since => .openRead watch since
  | .first _ => .first watch
  | .firstRead _ since => .firstRead watch since
  | .following _ => .following watch
  | .reopenRead _ since => .reopenRead watch since
  | stage => stage

/-- The service has a state with a snapshot. -/
def Stage.isActive : Stage → Bool
  | .absent => false
  | .opening => false
  | .openRead _ _ => false
  | .rollback => false
  | _ => true

variable {N I : Type}

/-- The state of a service, whose instances have a type. -/
structure Service (I : Type) where
  stage : Stage
  snapshot : List I
  ready : Bool
  /-- The number of notifications. -/
  version : ℕ
  terminalFailure : Bool
  watcher : Option Shutdown
  /-- The state of the registry whose instances the snapshot has. Nothing depends on it. -/
  seen : ℕ

/-- A service that has not been asked for. -/
def absentService : Service I := ⟨.absent, [], false, 0, false, none, 0⟩

namespace Service

/-- Notify the calls that wait. -/
def notifyState (s : Service I) : Service I := { s with version := s.version + 1 }

section Publication

variable (hasEndpoints : I → Bool) (content : ℕ → List I)

/-- Publish the instances of a state of the registry. -/
def publishSnapshot (s : Service I) (state : ℕ) : Service I :=
  notifyState
    { s with
      snapshot := content state
      ready := s.ready || (content state).any hasEndpoints
      seen := state }

/-- The state of a service that has been read. -/
def opened (s : Service I) (watch : Watch) (state : ℕ) : Service I :=
  { s with
    stage := .first watch
    snapshot := content state
    ready := (content state).any hasEndpoints
    version := 0
    terminalFailure := false
    watcher := some .running
    seen := state }

end Publication

/-- Stop the watcher, unless it has been stopped. -/
def stopWatcher (s : Service I) : Service I :=
  if s.watcher = some .running then { s with watcher := some .stopping } else s

/-- Stop the watcher that fails. -/
def fail (s : Service I) (runtimeFailure : Bool) : Service I :=
  { s.stopWatcher with stage := .failing runtimeFailure }

/-- The resolver is closed. -/
def close (s : Service I) : Service I :=
  if s.stage.isActive then s.notifyState.stopWatcher else s

end Service

/-! ### Steps of a service -/

section ServiceSteps

variable (hasEndpoints : I → Bool) (content : ℕ → List I)

/-- A step of a service, while the resolver is closed or not, and the registry has a state. A
read has the instances of a state between its call and its response. A watcher delivers states
in order, each of them not before the last one. -/
inductive ServiceStep (closed : Bool) (registry : ℕ) : Service I → Service I → Prop where
  | watchOpens {s : Service I} (hstage : s.stage = .opening) (openedAt : ℕ)
      (hopened : openedAt ≤ registry) :
      ServiceStep closed registry s { s with stage := .openRead ⟨openedAt, []⟩ registry }
  | watchRejects {s : Service I} (hstage : s.stage = .opening) :
      ServiceStep closed registry s { s with stage := .absent }
  | openReads {s : Service I} {watch : Watch} {since : ℕ} (hstage : s.stage = .openRead watch since)
      (state : ℕ) (hsince : since ≤ state) (hstate : state ≤ registry) :
      ServiceStep closed registry s
        (if closed then { s with stage := .rollback }
          else s.opened hasEndpoints content watch state)
  | openReadRejects {s : Service I} {watch : Watch} {since : ℕ}
      (hstage : s.stage = .openRead watch since) :
      ServiceStep closed registry s { s with stage := .rollback }
  | rolledBack {s : Service I} (hstage : s.stage = .rollback) :
      ServiceStep closed registry s { s with stage := .absent }
  | delivers {s : Service I} {watch : Watch} (hwatch : s.stage.watch = some watch) (state : ℕ)
      (hlast : watch.last ≤ state) (hstate : state ≤ registry) :
      ServiceStep closed registry s { s with stage := s.stage.setWatch (watch.deliver state) }
  /-- The first delivery is a signal to read. -/
  | signaled {s : Service I} {consumed state : ℕ} {queue : List ℕ}
      (hstage : s.stage = .first ⟨consumed, state :: queue⟩) :
      ServiceStep closed registry s { s with stage := .firstRead ⟨state, queue⟩ registry }
  | firstReads {s : Service I} {watch : Watch} {since : ℕ}
      (hstage : s.stage = .firstRead watch since) (state : ℕ) (hsince : since ≤ state)
      (hstate : state ≤ registry) :
      ServiceStep closed registry s
        { s.publishSnapshot hasEndpoints content state with stage := .following watch }
  /-- A later delivery is a snapshot. -/
  | followed {s : Service I} {consumed state : ℕ} {queue : List ℕ}
      (hstage : s.stage = .following ⟨consumed, state :: queue⟩) :
      ServiceStep closed registry s
        { s.publishSnapshot hasEndpoints content state with stage := .following ⟨state, queue⟩ }
  /-- A wait for a delivery or a read rejects. -/
  | fails {s : Service I} {watch : Watch} (hwatch : s.stage.watch = some watch)
      (hactive : s.stage.isActive = true) (runtimeFailure : Bool)
      (hruntime : closed = false → runtimeFailure = true) :
      ServiceStep closed registry s (s.fail runtimeFailure)
  | stopResolves {s : Service I} (hwatcher : s.watcher = some .stopping) :
      ServiceStep closed registry s { s with watcher := none }
  | stopRejects {s : Service I} (hwatcher : s.watcher = some .stopping) :
      ServiceStep closed registry s { s with watcher := some .failed }
  | stopped {s : Service I} {runtimeFailure : Bool} (hstage : s.stage = .failing runtimeFailure)
      (hwatcher : s.watcher = none) :
      ServiceStep closed registry s { s with stage := if closed then .ended else .backoff }
  /-- A watcher that cannot be stopped is not reopened. -/
  | stopFailed {s : Service I} {runtimeFailure : Bool} (hstage : s.stage = .failing runtimeFailure)
      (hwatcher : s.watcher = some .failed) :
      ServiceStep closed registry s
        { s.notifyState with terminalFailure := true, stage := .ended }
  | backoffEnds {s : Service I} (hstage : s.stage = .backoff) :
      ServiceStep closed registry s { s with stage := if closed then .ended else .reopening }
  | reopens {s : Service I} (hstage : s.stage = .reopening) (openedAt : ℕ)
      (hopened : openedAt ≤ registry) :
      ServiceStep closed registry s
        { s with watcher := some .running, stage := .reopenRead ⟨openedAt, []⟩ registry }
  | reopenRejects {s : Service I} (hstage : s.stage = .reopening) :
      ServiceStep closed registry s { s with stage := if closed then .ended else .backoff }
  /-- The snapshot is refreshed before the reopened watcher is waited for. -/
  | reopenReads {s : Service I} {watch : Watch} {since : ℕ}
      (hstage : s.stage = .reopenRead watch since) (state : ℕ) (hsince : since ≤ state)
      (hstate : state ≤ registry) :
      ServiceStep closed registry s
        { s.publishSnapshot hasEndpoints content state with stage := .first watch }

end ServiceSteps

/-! ### The resolver -/

/-- What a call of `getService` waits for. -/
inductive Waiting where
  /-- The state of the service. -/
  | state
  /-- The notification after a number of them. -/
  | notification (version : ℕ)

structure Call (N : Type) where
  name : N
  block : Bool
  waiting : Waiting

/-- What a call does when it goes on. -/
inductive Outcome (I : Type) where
  | returns (snapshot : List I)
  | throws
  | waits (version : ℕ)

/-- A call goes on with the state of its service. -/
def Service.resume (s : Service I) (closed block : Bool) : Outcome I :=
  if closed then .throws
  else if block && !s.ready then
    if s.terminalFailure then .throws else .waits s.version
  else .returns s.snapshot

/-- What a call waits for has come. -/
def Call.isReady (c : Call N) (s : Service I) : Bool :=
  s.stage.isActive &&
    match c.waiting with
    | .state => true
    | .notification version => s.version ≠ version

/-- A resolver, the registry and the calls that wait. -/
structure Resolver (N I : Type) where
  /-- The state of the registry, for every service. -/
  registry : N → ℕ
  services : N → Service I
  closed : Bool
  calls : List (Call N)
  /-- The snapshots that were returned. Nothing depends on them. -/
  returned : List (N × List I)

/-- A new resolver. -/
def newDiscoveryResolver (registry : N → ℕ) : Resolver N I :=
  ⟨registry, fun _ => absentService, false, [], []⟩

namespace Resolver

/-- A call of `getService` goes on. -/
def resume (r : Resolver N I) (i : ℕ) (c : Call N) : Resolver N I :=
  match (r.services c.name).resume r.closed c.block with
  | .returns snapshot =>
      { r with calls := r.calls.eraseIdx i, returned := r.returned ++ [(c.name, snapshot)] }
  | .throws => { r with calls := r.calls.eraseIdx i }
  | .waits version => { r with calls := r.calls.set i { c with waiting := .notification version } }

variable [DecidableEq N]

/-- `getService` is called before the resolver is closed. -/
def getService (r : Resolver N I) (name : N) (block : Bool) : Resolver N I :=
  { r with
    services := Function.update r.services name
      (match (r.services name).stage with
        | .absent => { r.services name with stage := .opening }
        | _ => r.services name)
    calls := r.calls ++ [⟨name, block, .state⟩] }

end Resolver

/-- A step of a resolver, given the instances of the services in every state. -/
inductive ResolverStep [DecidableEq N] (hasEndpoints : I → Bool) (content : N → ℕ → List I) :
    Resolver N I → Resolver N I → Prop where
  | changes {r : Resolver N I} (name : N) :
      ResolverStep hasEndpoints content r
        { r with registry := Function.update r.registry name (r.registry name + 1) }
  | service {r : Resolver N I} (name : N) {s : Service I}
      (hstep : ServiceStep hasEndpoints (content name) r.closed (r.registry name)
        (r.services name) s) :
      ResolverStep hasEndpoints content r { r with services := Function.update r.services name s }
  | getService {r : Resolver N I} (name : N) (block : Bool) (hopen : r.closed = false) :
      ResolverStep hasEndpoints content r (r.getService name block)
  | resumes {r : Resolver N I} {i : ℕ} {c : Call N} (hcall : r.calls[i]? = some c)
      (hready : c.isReady (r.services c.name) = true) :
      ResolverStep hasEndpoints content r (r.resume i c)
  /-- The context of a call ends, or its service could not be opened. -/
  | callFails {r : Resolver N I} {i : ℕ} {c : Call N} (hcall : r.calls[i]? = some c) :
      ResolverStep hasEndpoints content r { r with calls := r.calls.eraseIdx i }
  | close {r : Resolver N I} :
      ResolverStep hasEndpoints content r
        (if r.closed then r
          else { r with closed := true, services := fun name => (r.services name).close })

end Client
