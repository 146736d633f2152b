import GoLike.Lib.Inevitable
import Mathlib.Data.List.Basic

/-!
# The bind of a server

A server asks its transport to listen once, for the discovery of its endpoint and for its start
alike. A call that needs the listener waits for the promise of the bind, and may give up its own
wait. A stop attaches the close of the listener to the same promise.

A call is a sequence of synchronous parts. The code of others that a part calls (a middleware
wrapper, a context, the transport's `listen`, a listener's `addr`) may call the server again before
it returns, so a part that calls such code is a phase of its own.
-/

namespace Server.Bind

/-- A route of a service. -/
structure Route where
  service : String
  endpoint : String
  deriving DecidableEq

/-- What is thrown. -/
inductive Failure where
  /-- The cancellation of a context. -/
  | canceled
  /-- The cancellation of this server's bind. -/
  | bindClosed
  | typeError (message : String)
  | error (message : String)
  /-- An error of the code of others. -/
  | foreign (value : String)
  deriving DecidableEq

/-- What a call returns: `endpoint` returns a text. -/
abbrev Reply : Type := Except Failure (Option String)

/-- The options that the bind reads. The advertised endpoint is a function of the address. -/
structure ServerOptions where
  address : String
  httpRoutes : List Route
  advertisedEndpoint : String → Except Failure String

/-- The promise of the close. -/
inductive Closing where
  /-- The close is attached to a bind. -/
  | awaits (bind : ℕ)
  /-- The close of the listener was called. -/
  | closes (listener : ℕ)
  | settled (result : Except Failure Unit)

/-- The variables of a server. Dispatchers, listeners and binds are numbered. -/
structure State where
  registrations : List Route := []
  sealed : Bool := false
  sealedDispatcher : Option ℕ := none
  sealFailure : Option Failure := none
  listener : Option ℕ := none
  binding : Option ℕ := none
  closing : Option Closing := none
  actualAddress : String
  started : Bool := false
  stopping : Bool := false

/-- A call that needs a sealed server. -/
inductive Entry where
  | endpoint
  | start

/-- What a call does with the listener. -/
inductive Purpose where
  | endpoint
  | start (dispatch : ℕ)

/-- Where a call is. -/
inductive Phase where
  /-- `seal` composes the dispatcher. -/
  | composes (entry : Entry)
  /-- `bind` reads the error of the context. -/
  | inspects (purpose : Purpose)
  /-- `bind` calls the transport's `listen`. -/
  | listens (purpose : Purpose)
  | awaitsBind (purpose : Purpose) (bind : ℕ)
  | awaitsListener (purpose : Purpose) (listener : ℕ)
  /-- `stop` waits for the close. -/
  | awaitsClosing
  /-- `start` waits for the close. -/
  | startAwaitsClosing
  | serves
  | returned (reply : Reply)

/-- The promise of a bind. -/
inductive BindPromise where
  | requested
  /-- The listener is accepted, and its `addr` is called. -/
  | captures (listener : ℕ)
  | bound (listener : ℕ)
  | failed (error : Failure)

/-- What is asked of the server's transport and listeners, and of the server itself. -/
inductive Deed where
  | listen
  | accept (listener : ℕ)
  | close (listener : ℕ)
  | serve (listener dispatch : ℕ)
  /-- A stop after the bind began. -/
  | stop
  deriving DecidableEq

def Deed.isServe : Deed → Bool
  | .serve _ _ => true
  | _ => false

def Phase.isListens : Phase → Bool
  | .listens _ => true
  | _ => false

/-! ### Registration -/

/-- Install handlers. -/
def State.registerHandlers (s : State) (prepared : List Route) : Except Failure State :=
  if s.sealed then .error (.typeError "server registration is sealed")
  else
    match prepared.find? (fun item => decide (item ∈ s.registrations)) with
    | some item =>
        .error (.typeError s!"server handler is duplicated: {item.service}/{item.endpoint}")
    | none => .ok { s with registrations := s.registrations ++ prepared }

/-- What `seal` returns, or that it goes on to compose a dispatcher. -/
inductive Sealing where
  | sealed (dispatch : ℕ)
  | failed (error : Failure)
  | composes

def State.sealFails (s : State) (error : Failure) : State × Sealing :=
  ({ s with sealFailure := some error }, .failed error)

/-- Validate the registrations. -/
def State.seal (o : ServerOptions) (s : State) : State × Sealing :=
  match s.sealedDispatcher, s.sealFailure with
  | some dispatch, _ => (s, .sealed dispatch)
  | none, some error => (s, .failed error)
  | none, none =>
      let s := { s with sealed := true }
      if s.registrations.isEmpty then
        s.sealFails (.typeError "server requires at least one registered handler")
      else
        match o.httpRoutes.find? (fun route => decide (route ∉ s.registrations)) with
        | some route =>
            s.sealFails (.typeError
              s!"server httpRoute target is not registered: {route.service}/{route.endpoint}")
        | none => (s, .composes)

/-! ### Calls

A part of a call changes the server, leaves the call in a phase and does deeds. -/

/-- The outcome of a part of a call. -/
abbrev Part : Type := State × Phase × List Deed

/-- A call that ended without the listener. -/
def State.bindFailed (s : State) (purpose : Purpose) (error : Failure) : Part :=
  match purpose with
  | .endpoint => (s, .returned (.error error), [])
  | .start _ =>
      if s.stopping && (error = .canceled || error = .bindClosed) then (s, .returned (.ok none), [])
      else (s, .returned (.error error), [])

/-- A call that got the listener. -/
def State.bindEnded (o : ServerOptions) (s : State) (purpose : Purpose) (accepted : ℕ) : Part :=
  match purpose with
  | .endpoint => (s, .returned ((o.advertisedEndpoint s.actualAddress).map some), [])
  | .start dispatch =>
      if s.stopping then
        if s.closing.isSome then (s, .startAwaitsClosing, [])
        else ({ s with listener := none }, .returned (.ok none), [])
      else (s, .serves, [.serve accepted dispatch])

/-- The first part of `bind`. -/
def State.bind (s : State) (purpose : Purpose) : Phase :=
  match s.listener with
  | some accepted => .awaitsListener purpose accepted
  | none =>
      match s.binding with
      | some pending => .awaitsBind purpose pending
      | none => .inspects purpose

/-- What `endpoint` and `start` do with the sealed dispatcher. -/
def State.enter (s : State) (dispatch : ℕ) : Entry → Part
  | .endpoint => (s, s.bind .endpoint, [])
  | .start =>
      if s.started then
        (s, .returned (.error (.error "server may only be started once")), [])
      else
        let s := { s with started := true }
        (s, s.bind (.start dispatch), [])

/-- The first part of `endpoint` and `start`. -/
def State.call (o : ServerOptions) (s : State) (entry : Entry) : Part :=
  match s.seal o with
  | (s, .sealed dispatch) => s.enter dispatch entry
  | (s, .failed error) => (s, .returned (.error error), [])
  | (s, .composes) => (s, .composes entry, [])

/-- The first part of `stop`. -/
def State.stop (s : State) : Part :=
  match s.binding with
  | none => (s, .returned (.ok none), [])
  | some pending =>
      if s.closing.isSome then (s, .awaitsClosing, [.stop])
      else
        ({ s with stopping := true, closing := some (.awaits pending) }, .awaitsClosing, [.stop])

/-! ### Runs -/

/-- A server, its binds, its calls, the number of dispatchers that were composed, and the deeds,
latest first. -/
structure World where
  server : State
  binds : List BindPromise := []
  calls : List Phase := []
  dispatchers : ℕ := 0
  deeds : List Deed := []

def newWorld (o : ServerOptions) : World where
  server := { actualAddress := o.address }

/-- A call goes on. -/
def World.goes (w : World) (call : ℕ) (part : Part) : World :=
  { w with
    server := part.1
    calls := w.calls.set call part.2.1
    deeds := part.2.2 ++ w.deeds }

/-- A new call. -/
def World.opens (w : World) (part : Part) : World :=
  { w with
    server := part.1
    calls := w.calls ++ [part.2.1]
    deeds := part.2.2 ++ w.deeds }

/-- What happens next. Calls are made at any time, also by code that the server has called. -/
inductive Event where
  | registers (prepared : List Route)
  | calls (entry : Entry)
  | stops
  /-- The composition of a call ends. -/
  | composed (call : ℕ)
  | composeThrew (call : ℕ) (error : Failure)
  /-- The context of a call answers with its error, if it has one. -/
  | inspected (call : ℕ) (error : Option Failure)
  /-- `listen` returns its promise. -/
  | listened (call : ℕ)
  | listenThrew (call : ℕ) (error : Failure)
  | accepted (bind listener : ℕ)
  | refused (bind : ℕ) (error : Failure)
  /-- The `addr` of an accepted listener returns. -/
  | named (bind : ℕ) (address : String)
  | nameThrew (bind : ℕ) (error : Failure)
  /-- A call goes on with the promise it waited for. -/
  | resumed (call : ℕ)
  /-- The context of a call ends its wait. -/
  | abandoned (call : ℕ) (error : Failure)
  | served (call : ℕ) (result : Except Failure Unit)
  /-- The reaction that `stop` attached to the bind. -/
  | reacts
  | closed (result : Except Failure Unit)

/-- A call goes on with the promise it waited for. -/
def World.resume (o : ServerOptions) (w : World) (call : ℕ) : Option World :=
  match w.calls[call]? with
  | some (.awaitsBind purpose pending) =>
      match w.binds[pending]? with
      | some (.bound accepted) => some (w.goes call (w.server.bindEnded o purpose accepted))
      | some (.failed error) => some (w.goes call (w.server.bindFailed purpose error))
      | _ => none
  | some (.awaitsListener purpose accepted) =>
      some (w.goes call (w.server.bindEnded o purpose accepted))
  | some .awaitsClosing =>
      match w.server.closing with
      | some (.settled result) =>
          some (w.goes call (w.server, .returned (result.map fun _ => none), []))
      | _ => none
  | some .startAwaitsClosing =>
      match w.server.closing with
      | some (.settled result) =>
          some (w.goes call
            ({ w.server with listener := none }, .returned (result.map fun _ => none), []))
      | _ => none
  | _ => none

/-- The context of a call ends its wait. -/
def World.abandon (w : World) (call : ℕ) (error : Failure) : Option World :=
  match w.calls[call]? with
  | some (.awaitsBind purpose _) => some (w.goes call (w.server.bindFailed purpose error))
  | some (.awaitsListener purpose _) => some (w.goes call (w.server.bindFailed purpose error))
  | some .awaitsClosing => some (w.goes call (w.server, .returned (.error error), []))
  | _ => none

/-- `closeListener` or `closeCanceledBind`. -/
def World.react (w : World) : Option World :=
  match w.server.closing with
  | some (.awaits pending) =>
      match w.binds[pending]? with
      | some (.bound accepted) =>
          some { w with
            server := { w.server with closing := some (.closes accepted) }
            deeds := .close accepted :: w.deeds }
      | some (.failed error) =>
          let result := if error = .canceled ∨ error = .bindClosed then .ok () else .error error
          some { w with server := { w.server with closing := some (.settled result) } }
      | _ => none
  | _ => none

/-- The step of an event; none when it cannot happen. -/
def World.step (o : ServerOptions) (w : World) : Event → Option World
  | .registers prepared =>
      match w.server.registerHandlers prepared with
      | .ok s => some { w with server := s }
      | .error _ => some w
  | .calls entry => some (w.opens (w.server.call o entry))
  | .stops => some (w.opens w.server.stop)
  | .composed call =>
      match w.calls[call]? with
      | some (.composes entry) =>
          let dispatch := w.dispatchers
          let s := { w.server with sealedDispatcher := some dispatch }
          some { w.goes call (s.enter dispatch entry) with dispatchers := dispatch + 1 }
      | _ => none
  | .composeThrew call error =>
      match w.calls[call]? with
      | some (.composes _) =>
          some (w.goes call
            ({ w.server with sealFailure := some error }, .returned (.error error), []))
      | _ => none
  | .inspected call error =>
      match w.calls[call]?, error with
      | some (.inspects purpose), some error =>
          some (w.goes call (w.server.bindFailed purpose error))
      | some (.inspects purpose), none =>
          some (w.goes call (w.server, .listens purpose, [.listen]))
      | _, _ => none
  | .listened call =>
      match w.calls[call]? with
      | some (.listens purpose) =>
          let pending := w.binds.length
          let s := { w.server with binding := some pending }
          some { w.goes call (s, .awaitsBind purpose pending, []) with
            binds := w.binds ++ [.requested] }
      | _ => none
  | .listenThrew call error =>
      match w.calls[call]? with
      | some (.listens purpose) => some (w.goes call (w.server.bindFailed purpose error))
      | _ => none
  | .accepted bind listener =>
      match w.binds[bind]? with
      | some .requested =>
          some { w with
            server := { w.server with listener := some listener }
            binds := w.binds.set bind (.captures listener)
            deeds := .accept listener :: w.deeds }
      | _ => none
  | .refused bind error =>
      match w.binds[bind]? with
      | some .requested => some { w with binds := w.binds.set bind (.failed error) }
      | _ => none
  | .named bind address =>
      match w.binds[bind]? with
      | some (.captures listener) =>
          some { w with
            server := { w.server with actualAddress := address }
            binds := w.binds.set bind (.bound listener) }
      | _ => none
  | .nameThrew bind error =>
      match w.binds[bind]? with
      | some (.captures _) => some { w with binds := w.binds.set bind (.failed error) }
      | _ => none
  | .resumed call => w.resume o call
  | .abandoned call error => w.abandon call error
  | .served call result =>
      match w.calls[call]? with
      | some .serves =>
          some (w.goes call
            ({ w.server with listener := none }, .returned (result.map fun _ => none), []))
      | _ => none
  | .reacts => w.react
  | .closed result =>
      match w.server.closing with
      | some (.closes accepted) =>
          let listener := if w.server.listener = some accepted then none else w.server.listener
          some { w with
            server := { w.server with listener := listener, closing := some (.settled result) } }
      | _ => none

/-- The world after events that are all allowed. -/
def World.run (o : ServerOptions) (allowed : World → Event → Bool) (w : World) :
    List Event → Option World
  | [] => some w
  | event :: events =>
      if allowed w event then (w.step o event).bind fun w => w.run o allowed events else none

/-- A part of a bind or of a close that the server still has to run. -/
def Event.isJob : Event → Bool
  | .named _ _ | .nameThrew _ _ | .reacts => true
  | _ => false

/-- A step of what the server still has to run. -/
def World.Job (o : ServerOptions) (allowed : World → Event → Bool) (w w' : World) : Prop :=
  ∃ event, event.isJob ∧ allowed w event ∧ w.step o event = some w'

/-- The bind of a world is owned by its server. -/
structure World.Owned (o : ServerOptions) (allowed : World → Event → Bool) (w : World) : Prop where
  listensOnce : w.deeds.count .listen ≤ 1
  closesOnce : ∀ accepted, w.deeds.count (.close accepted) ≤ 1
  /-- After a stop, running what is left closes an accepted listener. -/
  stopCloses : .stop ∈ w.deeds → ∀ accepted, .accept accepted ∈ w.deeds →
    Inevitable (World.Job o allowed) (fun w => .close accepted ∈ w.deeds) w
  servesOnce : w.deeds.countP Deed.isServe ≤ 1
  servesSealed : ∀ accepted dispatch, .serve accepted dispatch ∈ w.deeds →
    w.server.sealedDispatcher = some dispatch
  noServeAfterStop : w.deeds.Pairwise fun later earlier => earlier = .stop → ¬ later.isServe

/-- No event of the four kinds under which a bind is not owned: a composition ends after a
dispatcher was sealed, `listen` is called when a bind is there or under way, `listen` throws, and
the address of an accepted listener throws. -/
def World.fits (w : World) : Event → Bool
  | .composed _ => w.server.sealedDispatcher.isNone
  | .inspected _ none => w.server.binding.isNone && w.calls.all fun phase => !phase.isListens
  | .listenThrew _ _ => false
  | .nameThrew _ _ => false
  | _ => true

end Server.Bind
