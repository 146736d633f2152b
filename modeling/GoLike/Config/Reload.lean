import Mathlib.Data.List.Basic
import Mathlib.Logic.Relation

/-!
# Reloading a configuration

A configuration is loaded once. Then the watchers of its sources signal changes, and background
rounds, at most one at a time, prepare and publish a new document. A signal sets a dirty bit, a
round that starts takes it, and a round that fails is retried after a delay. Closing a
configuration cancels the context of the rounds.
-/

namespace Config

inductive LifecycleState where
  | idle
  | loading
  | loaded
  | closing
  | closed
  | failed
  deriving DecidableEq

/-- An error, or one that is caused by the error object of the intentional stop. -/
inductive Failure where
  | intentionalStop
  | other
  deriving DecidableEq

def reloadRetryInitialMs : ℕ := 250

def reloadRetryMaximumMs : ℕ := 30000

variable {α : Type}

structure Publication (α : Type) where
  version : ℕ
  value : α

/-- How far a background round has got. A round has settled when it has succeeded or failed. -/
inductive RoundPhase (α : Type) where
  | queued
  | preparing
  | prepared (candidate : α)
  | succeeded
  | failed (failure : Failure)

/-- A background round that has started. -/
structure Round (α : Type) where
  phase : RoundPhase α
  /-- The number of rounds that started before. Nothing depends on it. -/
  number : ℕ
  /-- The publication when the round started. Nothing depends on it. -/
  base : Option (Publication α)
  /-- The drain had started when the operation of the round began. Nothing depends on it. -/
  late : Bool

/-- How far the load has got. -/
inductive LoadPhase (α : Type) where
  | absent
  | queued
  | preparing
  /-- The watchers have been launched. -/
  | launched (candidate : α)
  | rollingBack
  | draining
  | settled

/-- The variables of a configuration, and the operations in progress. -/
structure Manager (α : Type) where
  state : LifecycleState
  current : Option (Publication α)
  load : LoadPhase α
  /-- The startup context, while it can be canceled, and whether it has been. -/
  startup : Option Bool
  /-- The runtime context, and whether it has been canceled. -/
  runtime : Option Bool
  dirty : Bool
  reloadActive : Bool
  reloadRetryDelayMs : ℕ
  /-- The delay of the retry timer. -/
  reloadRetryTimer : Option ℕ
  drainStarted : Bool
  abnormalPrimary : Option Failure
  /-- The loops of the watchers, and whether they are running. -/
  loops : List Bool
  /-- The rounds whose callback has not been called. -/
  rounds : List (Round α)
  /-- The number of rounds that have started. Nothing depends on it. -/
  started : ℕ
  /-- A notification has arrived since a round was started last. Nothing depends on it. -/
  notified : Bool
  /-- The rounds that have published. Nothing depends on them. -/
  published : List (Round α)

/-- A new configuration. -/
def newConfig : Manager α where
  state := .idle
  current := none
  load := .absent
  startup := none
  runtime := none
  dirty := false
  reloadActive := false
  reloadRetryDelayMs := reloadRetryInitialMs
  reloadRetryTimer := none
  drainStarted := false
  abnormalPrimary := none
  loops := []
  rounds := []
  started := 0
  notified := false
  published := []

namespace Manager

/-! ### Retries and rounds -/

def cancelReloadRetry (m : Manager α) : Manager α := { m with reloadRetryTimer := none }

/-- Reset the delay of retries. -/
def resetReloadRetry (m : Manager α) : Manager α :=
  { m.cancelReloadRetry with reloadRetryDelayMs := reloadRetryInitialMs }

/-- Start a round, if the dirty bit is set and no round is active. -/
def pumpDirty (m : Manager α) : Manager α :=
  if m.state ≠ .loaded ∨ m.reloadActive = true ∨ m.dirty = false ∨ m.runtime = none then m
  else
    { m with
      dirty := false
      reloadActive := true
      rounds := m.rounds ++ [⟨.queued, m.started, m.current, false⟩]
      started := m.started + 1
      notified := false }

/-- A change is signaled. -/
def markDirty (m : Manager α) : Manager α :=
  let marked := resetReloadRetry { m with dirty := true, notified := true }
  if marked.state = .loaded then marked.pumpDirty else marked

/-- Start the drain. -/
def beginDrain (m : Manager α) : Manager α :=
  if m.drainStarted then m
  else
    { m with
      drainStarted := true
      state := .closing
      dirty := false
      reloadRetryTimer := none
      startup := m.startup.map (fun _ => true)
      runtime := m.runtime.map (fun _ => true) }

/-- A watcher fails. -/
def recordAbnormal (m : Manager α) (failure : Failure) : Manager α :=
  let recorded := { m with abnormalPrimary := some (m.abnormalPrimary.getD failure) }
  if recorded.state = .loaded then recorded.beginDrain else recorded

/-- A hook of the application, which may close the configuration. -/
def hook (m : Manager α) (closes : Bool) : Manager α := if closes then m.beginDrain else m

def backgroundSucceeded (m : Manager α) : Manager α :=
  let done := resetReloadRetry { m with reloadActive := false }
  if done.state = .loaded then done.pumpDirty else done

/-- A round has failed. The hook for reload errors may close the configuration. -/
def backgroundFailed (m : Manager α) (failure : Failure) (closes : Bool) : Manager α :=
  let changedWhileReloading := m.dirty
  let done := { m with reloadActive := false }
  if failure = .intentionalStop then done
  else
    let reported := done.hook closes
    if reported.state ≠ .loaded then reported
    else
      let marked := { reported with dirty := true }
      if changedWhileReloading then marked.resetReloadRetry.pumpDirty
      else
        { marked with
          reloadRetryTimer := some marked.reloadRetryDelayMs
          reloadRetryDelayMs := min reloadRetryMaximumMs (marked.reloadRetryDelayMs * 2) }

/-- The retry timer fires. -/
def retryReload (m : Manager α) : Manager α := pumpDirty { m with reloadRetryTimer := none }

/-! ### Publication -/

def publication (m : Manager α) (candidate : α) : Publication α :=
  ⟨match m.current with | none => 1 | some publication => publication.version + 1, candidate⟩

/-- Publish a candidate. An observer may close the configuration. -/
def publish (m : Manager α) (candidate : α) (closes : Bool) : Manager α :=
  hook { m with current := some (m.publication candidate) } closes

/-! ### The load -/

/-- The load fails before or after the watchers have been launched. -/
def loadFailed (m : Manager α) (primary : Failure) : Manager α :=
  let canceled := { m with startup := none, runtime := m.runtime.map (fun _ => true) }
  if m.drainStarted = true ∧ primary = .intentionalStop then { canceled with load := .draining }
  else
    { canceled with
      load := .rollingBack
      state := .closing
      abnormalPrimary := some (m.abnormalPrimary.getD primary) }

/-- Launch the loops of the watchers. -/
def launch (m : Manager α) (candidate : α) (watchers : ℕ) : Manager α :=
  { m with
    startup := none
    runtime := some false
    loops := List.replicate watchers (m.state = .loading || m.state = .loaded)
    load := .launched candidate }

/-- The watchers have been launched. -/
def ready (m : Manager α) (candidate : α) : Manager α :=
  match m.abnormalPrimary with
  | some failure => m.loadFailed failure
  | none =>
      let published := { m.publish candidate false with load := .settled }
      if published.drainStarted then { published with state := .closing, runtime := some true }
      else pumpDirty { published with state := .loaded }

/-- The watchers of a failed load have been stopped. -/
def rolledBack (m : Manager α) : Manager α := { m with state := .failed, load := .settled }

/-! ### The watchers -/

/-- The next call of a watcher resolves. -/
def nextResolved (m : Manager α) (i : ℕ) : Manager α :=
  if m.state = .loading ∨ m.state = .loaded then m.markDirty
  else { m with loops := m.loops.set i false }

/-- The next call of a watcher rejects. -/
def nextRejected (m : Manager α) (i : ℕ) (failure : Failure) : Manager α :=
  let ended := { m with loops := m.loops.set i false }
  if failure = .intentionalStop then ended
  else if m.state = .closing then ended
  else ended.recordAbnormal failure

/-- Change the round that is first in the queue. -/
def setRound (m : Manager α) (r : Round α) : Manager α := { m with rounds := r :: m.rounds.tail }

end Manager

open Manager

/-! ### Steps -/

/-- A step of a configuration, its sources, its watchers, its timer and its application. The
error object of the intentional stop is private: the load and the rounds fail with it only when
it is the cause of a context that has been canceled. -/
inductive Step : Manager α → Manager α → Prop where
  | load {m : Manager α} (hstate : m.state = .idle) :
      Step m { m with state := .loading, load := .queued }
  | loadCanceled {m : Manager α} (hstate : m.state = .idle) : Step m { m with state := .failed }
  | loadBegins {m : Manager α} (hload : m.load = .queued) :
      Step m { m with load := .preparing, startup := some false }
  | loadFails {m : Manager α} (hload : m.load = .preparing) (failure : Failure)
      (hfailure : failure = .intentionalStop → m.startup = some true) :
      Step m (m.loadFailed failure)
  | launches {m : Manager α} (hload : m.load = .preparing) (hstartup : m.startup = some false)
      (candidate : α) (watchers : ℕ) : Step m (m.launch candidate watchers)
  | ready {m : Manager α} {candidate : α} (hload : m.load = .launched candidate) :
      Step m (m.ready candidate)
  | rolledBack {m : Manager α} (hload : m.load = .rollingBack) : Step m m.rolledBack
  | loadDrained {m : Manager α} (hload : m.load = .draining) : Step m { m with load := .settled }
  | nextResolved {m : Manager α} {i : ℕ} (hloop : m.loops[i]? = some true) :
      Step m (m.nextResolved i)
  | nextRejected {m : Manager α} {i : ℕ} (hloop : m.loops[i]? = some true) (failure : Failure) :
      Step m (m.nextRejected i failure)
  /-- The operation of a round begins. It fails when the runtime context has been canceled. -/
  | roundBegins {m : Manager α} {r : Round α} {rest : List (Round α)}
      (hrounds : m.rounds = r :: rest) (hphase : r.phase = .queued) (hload : m.load = .settled) :
      Step m (m.setRound
        { r with
          late := m.drainStarted
          phase := if m.runtime = some true then .failed .intentionalStop else .preparing })
  | roundPrepared {m : Manager α} {r : Round α} {rest : List (Round α)}
      (hrounds : m.rounds = r :: rest) (hphase : r.phase = .preparing)
      (hruntime : m.runtime = some false) (candidate : α) :
      Step m (m.setRound { r with phase := .prepared candidate })
  | roundFails {m : Manager α} {r : Round α} {rest : List (Round α)}
      (hrounds : m.rounds = r :: rest) (hphase : r.phase = .preparing) (failure : Failure)
      (hfailure : failure = .intentionalStop → m.runtime = some true) :
      Step m (m.setRound { r with phase := .failed failure })
  | roundPublishes {m : Manager α} {r : Round α} {rest : List (Round α)} {candidate : α}
      (hrounds : m.rounds = r :: rest) (hphase : r.phase = .prepared candidate) (closes : Bool) :
      Step m
        (publish { m.setRound { r with phase := .succeeded } with published := m.published ++ [r] }
          candidate closes)
  | backgroundSucceeded {m : Manager α} {r : Round α} {rest : List (Round α)}
      (hrounds : m.rounds = r :: rest) (hphase : r.phase = .succeeded) :
      Step m (backgroundSucceeded { m with rounds := rest })
  | backgroundFailed {m : Manager α} {r : Round α} {rest : List (Round α)} {failure : Failure}
      (hrounds : m.rounds = r :: rest) (hphase : r.phase = .failed failure) (closes : Bool) :
      Step m (backgroundFailed { m with rounds := rest } failure closes)
  | timerFires {m : Manager α} {delay : ℕ} (htimer : m.reloadRetryTimer = some delay) :
      Step m m.retryReload
  | close {m : Manager α} : Step m m.beginDrain
  /-- The drain ends when the operations, the watchers and their loops have ended. -/
  | drained {m : Manager α} (hdrain : m.drainStarted = true) (hstate : m.state = .closing)
      (hload : m.load = .absent ∨ m.load = .settled) (hrounds : m.rounds = [])
      (hloops : ∀ running ∈ m.loops, running = false) (clean : Bool) :
      Step m { m with state := if clean then .closed else .failed }

end Config
