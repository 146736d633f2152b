import Mathlib.Data.List.Basic
import Mathlib.Logic.Relation

/-!
# The application lifecycle

An application runs once: it calls the hooks before the start, starts every server, registers
the instance that the servers advertise, and calls the hooks after the start. It is stopped by a
call of `stop`, by the end of its parent context, by a server that fails and by a startup that
fails. The stop sequence cancels the context of the application, waits for the startup, calls the
hooks before the stop, withdraws the registered instance, stops the servers, waits for them, and
calls the hooks after the stop.

Both sequences are interleaved where they wait. In between, the functions that they call (hooks,
servers, listeners of the context) may call `stop` themselves; the calls that have not returned
are kept in a stack.
-/

namespace Core

/-- The configuration of an application. Servers and hooks are numbered. -/
structure AppConfig where
  servers : ℕ
  /-- The server has an endpoint. -/
  isEndpointer : ℕ → Bool
  /-- The endpoints of the application are declared. -/
  hasEndpoints : Bool
  hasRegistrar : Bool
  hasStopTimeout : Bool
  beforeStartHooks : ℕ
  afterStartHooks : ℕ
  beforeStopHooks : ℕ
  afterStopHooks : ℕ

/-- What an application does. -/
inductive Event where
  /-- The application is requested to stop, for the first time. -/
  | requested
  | starts (server : ℕ)
  | endpoint (server : ℕ)
  | registers
  /-- The instance is withdrawn, by the stop sequence if it was held. -/
  | deregisters (held : Bool)
  | beforeStop (hook : ℕ)
  | stops (server : ℕ)
  /-- The stop sequence has waited for the servers. -/
  | waited
  | afterStop (hook : ℕ)
  deriving DecidableEq

/-- How far the startup has got. -/
inductive Startup where
  | idle
  | installing
  /-- A number of hooks have been waited for. -/
  | beforeHooks (ended : ℕ)
  /-- A number of servers have been started. -/
  | launching (started : ℕ)
  | launched
  /-- The endpoints of a number of servers have been collected. -/
  | building (visited : ℕ)
  | endpoint (server : ℕ)
  | built
  /-- The call of the registrar has been queued. -/
  | registering
  | registerWait
  | afterHooks (ended : ℕ)
  | settled (succeeded : Bool)
  deriving DecidableEq

/-- The startup has settled. -/
def Startup.isSettled : Startup → Bool
  | .settled _ => true
  | _ => false

/-- The instance is being built. -/
def Startup.isBuilding : Startup → Bool
  | .building _ => true
  | .endpoint _ => true
  | .built => true
  | _ => false

/-- How far a stop sequence has got. -/
inductive StopPhase where
  | cancelling
  /-- The startup is waited for. -/
  | joining
  /-- A number of hooks have been waited for. -/
  | beforeHooks (ended : ℕ)
  /-- The call of the registrar has been queued. -/
  | deregistering
  | deregisterWait
  | stopping
  | stopWait
  /-- The starts of the servers are waited for. -/
  | settling
  | afterHooks (ended : ℕ)
  | ended
  deriving DecidableEq

/-- The promise of the register call. -/
inductive Registration where
  | uncalled
  | pending
  | succeeded
  | failed
  deriving DecidableEq

/-- What happens with a registration that is not waited for. -/
inductive Compensation where
  | none
  /-- The wait for the registration has ended before it was observed. -/
  | orphaned
  /-- The call of the registrar has been queued. -/
  | queued
  | called
  deriving DecidableEq

/-- How far `run` has got. -/
inductive RunPhase where
  | idle
  | racing
  | stopping
  | ended
  deriving DecidableEq

/-- A call that has not returned. -/
inductive Frame where
  | run
  /-- The stop sequence with a number, up to its first wait. -/
  | stop (sequence : ℕ)
  deriving DecidableEq

structure App where
  stopRequested : Bool
  /-- The number of the stop sequence whose promise is returned. -/
  stopPromise : Option ℕ
  sequences : List StopPhase
  startup : Startup
  startupPromise : Bool
  startupAbandoned : Bool
  serversLaunched : Bool
  preparedServers : List ℕ
  registeredInstance : Bool
  registration : Registration
  compensation : Compensation
  serverFailed : Bool
  run : RunPhase
  stack : List Frame
  /-- Nothing depends on it. -/
  log : List Event

/-- A new application. -/
def newApp : App :=
  ⟨false, none, [], .idle, false, false, false, [], false, .uncalled, .none, false, .idle, [], []⟩

namespace App

/-- Note what the application does. -/
def note (a : App) (event : Event) : App := { a with log := a.log ++ [event] }

/-- A stop is requested. -/
def requestStop (a : App) : App :=
  if a.stopRequested then a else { a with stopRequested := true }.note .requested

/-- `stop` is called. -/
def stopApp (a : App) : App :=
  let a := a.requestStop
  if a.stopPromise.isSome then a
  else
    { a with
      sequences := a.sequences ++ [.cancelling]
      stack := .stop a.sequences.length :: a.stack }

/-! ### The startup -/

/-- The startup goes on behind the registration. -/
def startAfterHooks (a : App) : App :=
  { a with startup := if a.stopRequested then .settled true else .afterHooks 0 }

/-- The startup begins, and its promise is known unless it calls a hook at once. -/
def executeStart (cfg : AppConfig) (a : App) (stack : List Frame) : App :=
  if a.stopRequested then { a with startup := .launched, startupPromise := true, stack := stack }
  else if cfg.beforeStartHooks = 0 then
    { a with startup := .beforeHooks 0, startupPromise := true, stack := stack }
  else { a with startup := .beforeHooks 0 }

/-- The first server is started. The next ones are started when its call has returned. -/
def launch (cfg : AppConfig) (a : App) : App :=
  if a.stopRequested then { a with startup := .launched }
  else if cfg.servers = 0 then { a with serversLaunched := true, startup := .launched }
  else
    { a with
      serversLaunched := true
      startup := .launching 1
      stack := .run :: a.stack }.note (.starts 0)

/-- The instance is built, unless there is no need to register. -/
def startBuilding (cfg : AppConfig) (a : App) : App :=
  if !a.stopRequested && cfg.hasRegistrar then
    { a with startup := if cfg.hasEndpoints then .built else .building 0 }
  else a.startAfterHooks

/-- The endpoint of the next server is asked for. -/
def buildNext (cfg : AppConfig) (a : App) (visited : ℕ) : App :=
  if a.stopRequested || !decide (visited < cfg.servers) then { a with startup := .built }
  else if cfg.isEndpointer visited then
    { a with
      preparedServers := a.preparedServers ++ [visited]
      startup := .endpoint visited }.note (.endpoint visited)
  else { a with startup := .building (visited + 1) }

/-- The registration is begun. -/
def register (a : App) : App :=
  if a.stopRequested then a.startAfterHooks else { a with startup := .registering }

/-- The wait for a registration has resolved. -/
def registered (a : App) : App :=
  startAfterHooks
    (if a.startupAbandoned then { a with compensation := .queued }
      else { a with registeredInstance := true })

/-! ### The stop sequence -/

/-- Set the phase of a stop sequence. -/
def setPhase (a : App) (i : ℕ) (phase : StopPhase) : App :=
  { a with sequences := a.sequences.set i phase }

/-- The next of the hooks before the stop is called. -/
def beforeStopHook (cfg : AppConfig) (a : App) (i hook : ℕ) : App :=
  (if hook < cfg.beforeStopHooks then a.note (.beforeStop hook) else a).setPhase i
    (.beforeHooks hook)

/-- The next of the hooks after the stop is called. -/
def afterStopHook (cfg : AppConfig) (a : App) (i hook : ℕ) : App :=
  (if hook < cfg.afterStopHooks then a.note (.afterStop hook) else a).setPhase i
    (.afterHooks hook)

/-- A stop sequence comes to its first wait. -/
def returnStop (a : App) (i : ℕ) (stack : List Frame) : App :=
  { a with stack := stack, stopPromise := some i }

/-- The context has been canceled. A startup whose promise is not known is not waited for. -/
def joinStartup (cfg : AppConfig) (a : App) (i : ℕ) (stack : List Frame) : App :=
  if a.startupPromise then (a.setPhase i .joining).returnStop i stack
  else if cfg.beforeStopHooks = 0 then (a.beforeStopHook cfg i 0).returnStop i stack
  else a.beforeStopHook cfg i 0

/-- The instance that is held is withdrawn. -/
def withdraw (a : App) (i : ℕ) : App :=
  if a.registeredInstance then { a with registeredInstance := false }.setPhase i .deregistering
  else a.setPhase i .stopping

/-- The servers that were started or prepared. -/
def stoppedServers (cfg : AppConfig) (a : App) : List ℕ :=
  (List.range cfg.servers).filter
    (fun server => a.serversLaunched || decide (server ∈ a.preparedServers))

/-- The servers are stopped. -/
def stopServers (cfg : AppConfig) (a : App) (i : ℕ) : App :=
  if a.serversLaunched || !a.preparedServers.isEmpty then
    { a with log := a.log ++ (a.stoppedServers cfg).map Event.stops }.setPhase i .stopWait
  else a.setPhase i .settling

end App

/-! ### Steps -/

/-- A step of an application. A call of `stop` may come from anywhere. The other steps are taken
by the call that is on top of the stack, or when all of them have returned. -/
inductive AppStep (cfg : AppConfig) : App → App → Prop where
  | runs {a : App} (hstartup : a.startup = .idle) :
      AppStep cfg a { a with run := .racing, startup := .installing, stack := .run :: a.stack }
  /-- The runtime integration throws. -/
  | installFails {a : App} {stack : List Frame} (hstack : a.stack = .run :: stack)
      (hstartup : a.startup = .installing) :
      AppStep cfg a { a with startup := .settled false, stack := stack }
  | installed {a : App} {stack : List Frame} (hstack : a.stack = .run :: stack)
      (hstartup : a.startup = .installing) :
      AppStep cfg a (a.executeStart cfg stack)
  | firstHookReturns {a : App} {stack : List Frame} (hstack : a.stack = .run :: stack)
      (hstartup : a.startup = .beforeHooks 0) :
      AppStep cfg a { a with startupPromise := true, stack := stack }
  | hookEnds {a : App} {ended : ℕ} (hstack : a.stack = []) (hstartup : a.startup = .beforeHooks ended)
      (hended : ended < cfg.beforeStartHooks) :
      AppStep cfg a { a with startup := .beforeHooks (ended + 1) }
  | hookFails {a : App} {ended : ℕ} (hstack : a.stack = [])
      (hstartup : a.startup = .beforeHooks ended) (hended : ended < cfg.beforeStartHooks) :
      AppStep cfg a { a with startup := .settled false }
  | launches {a : App} (hstack : a.stack = [])
      (hstartup : a.startup = .beforeHooks cfg.beforeStartHooks) :
      AppStep cfg a (a.launch cfg)
  /-- Whether a stop has been requested is not asked between two servers. -/
  | launchesNext {a : App} {stack : List Frame} {started : ℕ} (hstack : a.stack = .run :: stack)
      (hstartup : a.startup = .launching started) (hstarted : started < cfg.servers) :
      AppStep cfg a ({ a with startup := .launching (started + 1) }.note (.starts started))
  | launchEnds {a : App} {stack : List Frame} {started : ℕ} (hstack : a.stack = .run :: stack)
      (hstartup : a.startup = .launching started) (hstarted : ¬ started < cfg.servers) :
      AppStep cfg a { a with startup := .launched, stack := stack }
  | serverFails {a : App} (hlaunched : a.serversLaunched = true) :
      AppStep cfg a { a with serverFailed := true }
  | launchedFails {a : App} (hstack : a.stack = []) (hstartup : a.startup = .launched)
      (hfailed : a.serverFailed = true) :
      AppStep cfg a { a with startup := .settled false }
  | builds {a : App} (hstack : a.stack = []) (hstartup : a.startup = .launched)
      (hfailed : a.serverFailed = false) :
      AppStep cfg a (a.startBuilding cfg)
  | buildsNext {a : App} {visited : ℕ} (hstack : a.stack = [])
      (hstartup : a.startup = .building visited) :
      AppStep cfg a (a.buildNext cfg visited)
  | endpointResolves {a : App} {server : ℕ} (hstack : a.stack = [])
      (hstartup : a.startup = .endpoint server) :
      AppStep cfg a { a with startup := .building (server + 1) }
  | buildFails {a : App} (hstack : a.stack = []) (hstartup : a.startup.isBuilding = true) :
      AppStep cfg a { a with startup := .settled false }
  | registers {a : App} (hstack : a.stack = []) (hstartup : a.startup = .built) :
      AppStep cfg a a.register
  | registerCalled {a : App} (hstack : a.stack = []) (hstartup : a.startup = .registering) :
      AppStep cfg a
        ({ a with startup := .registerWait, registration := .pending }.note .registers)
  | registerSucceeds {a : App} (hregistration : a.registration = .pending) :
      AppStep cfg a { a with registration := .succeeded }
  | registerFails {a : App} (hregistration : a.registration = .pending) :
      AppStep cfg a { a with registration := .failed }
  | registered {a : App} (hstack : a.stack = []) (hstartup : a.startup = .registerWait)
      (hregistration : a.registration = .succeeded) :
      AppStep cfg a a.registered
  /-- The wait for the registration is over before it is known to have succeeded. -/
  | registerAbandoned {a : App} (hstack : a.stack = []) (hstartup : a.startup = .registerWait) :
      AppStep cfg a { a with startup := .settled false, compensation := .orphaned }
  | compensates {a : App} (hstack : a.stack = []) (hcompensation : a.compensation = .orphaned)
      (hregistration : a.registration = .succeeded) :
      AppStep cfg a { a with compensation := .queued }
  | compensated {a : App} (hstack : a.stack = []) (hcompensation : a.compensation = .queued) :
      AppStep cfg a ({ a with compensation := .called }.note (.deregisters false))
  | afterHookEnds {a : App} {ended : ℕ} (hstack : a.stack = [])
      (hstartup : a.startup = .afterHooks ended) :
      AppStep cfg a
        { a with
          startup := if ended < cfg.afterStartHooks then .afterHooks (ended + 1) else .settled true }
  | afterHookFails {a : App} {ended : ℕ} (hstack : a.stack = [])
      (hstartup : a.startup = .afterHooks ended) (hended : ended < cfg.afterStartHooks) :
      AppStep cfg a { a with startup := .settled false }
  | stops {a : App} : AppStep cfg a a.stopApp
  | cancelled {a : App} {i : ℕ} {stack : List Frame} (hstack : a.stack = .stop i :: stack)
      (hphase : a.sequences[i]? = some .cancelling) :
      AppStep cfg a (a.joinStartup cfg i stack)
  | firstStopHookReturns {a : App} {i : ℕ} {stack : List Frame} (hstack : a.stack = .stop i :: stack)
      (hphase : a.sequences[i]? = some (.beforeHooks 0)) :
      AppStep cfg a (a.returnStop i stack)
  | joins {a : App} {i : ℕ} (hstack : a.stack = []) (hphase : a.sequences[i]? = some .joining)
      (hstartup : a.startup.isSettled = true) :
      AppStep cfg a (a.beforeStopHook cfg i 0)
  /-- The time of the stop is over. -/
  | abandons {a : App} {i : ℕ} (hstack : a.stack = []) (hphase : a.sequences[i]? = some .joining)
      (htimeout : cfg.hasStopTimeout = true) :
      AppStep cfg a ({ a with startupAbandoned := true }.beforeStopHook cfg i 0)
  | stopHookEnds {a : App} {i ended : ℕ} (hstack : a.stack = [])
      (hphase : a.sequences[i]? = some (.beforeHooks ended)) (hended : ended < cfg.beforeStopHooks) :
      AppStep cfg a (a.beforeStopHook cfg i (ended + 1))
  | withdraws {a : App} {i : ℕ} (hstack : a.stack = [])
      (hphase : a.sequences[i]? = some (.beforeHooks cfg.beforeStopHooks)) :
      AppStep cfg a (a.withdraw i)
  | deregisterCalled {a : App} {i : ℕ} (hstack : a.stack = [])
      (hphase : a.sequences[i]? = some .deregistering) :
      AppStep cfg a ((a.note (.deregisters true)).setPhase i .deregisterWait)
  | deregisterEnds {a : App} {i : ℕ} (hstack : a.stack = [])
      (hphase : a.sequences[i]? = some .deregisterWait) :
      AppStep cfg a (a.setPhase i .stopping)
  | stopsServers {a : App} {i : ℕ} (hstack : a.stack = [])
      (hphase : a.sequences[i]? = some .stopping) :
      AppStep cfg a (a.stopServers cfg i)
  /-- All the stop calls have settled, or the time of the stop is over. -/
  | stopWaitEnds {a : App} {i : ℕ} (hstack : a.stack = [])
      (hphase : a.sequences[i]? = some .stopWait) :
      AppStep cfg a (a.setPhase i .settling)
  | serversSettle {a : App} {i : ℕ} (hstack : a.stack = [])
      (hphase : a.sequences[i]? = some .settling) :
      AppStep cfg a ((a.note .waited).afterStopHook cfg i 0)
  | afterStopHookEnds {a : App} {i ended : ℕ} (hstack : a.stack = [])
      (hphase : a.sequences[i]? = some (.afterHooks ended)) (hended : ended < cfg.afterStopHooks) :
      AppStep cfg a (a.afterStopHook cfg i (ended + 1))
  | stopEnds {a : App} {i : ℕ} (hstack : a.stack = [])
      (hphase : a.sequences[i]? = some (.afterHooks cfg.afterStopHooks)) :
      AppStep cfg a (a.setPhase i .ended)
  /-- The startup or a server has failed, or a stop has been requested. -/
  | raceEnds {a : App} (hstack : a.stack = []) (hrun : a.run = .racing)
      (hrace : a.startup = .settled false ∨ a.serverFailed = true ∨ a.stopRequested = true) :
      AppStep cfg a { a with run := .stopping }.stopApp
  | runEnds {a : App} {i : ℕ} (hstack : a.stack = []) (hrun : a.run = .stopping)
      (hpromise : a.stopPromise = some i) (hphase : a.sequences[i]? = some .ended) :
      AppStep cfg a { a with run := .ended }

end Core
