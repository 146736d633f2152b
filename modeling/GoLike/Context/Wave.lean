import GoLike.Context.Tree
import Mathlib.Logic.Function.Basic
import Mathlib.Logic.Relation

/-!
# Waves of cancellation

A cancellation runs a wave: a queue of contexts to be ended, and a stack of the cleanups of
those that have ended. Ending a context aborts its signal, whose listeners queue the children
in the wave that runs; the cleanups run when the queue is empty, those that were pushed last
first. Listeners and cleanups are code of a caller. They may create contexts, register
cleanups and listeners, throw, and cancel contexts, for which a wave is run within the wave.

The state has a stack of what is being executed: the calls of code of callers, the dispatch of
signals to their listeners, and the waves.
-/

namespace ContextTree

/-! ### The state -/

/-- A cleanup of a context: that of its listener at the parent, that of its timer, or work that
a caller has registered. -/
inductive Cleanup where
  | stopParent
  | stopTimer
  | work (callback : ℕ)
  deriving DecidableEq

/-- A listener of a signal: that of a child, or one of a caller. -/
inductive Listener where
  | child (node : ℕ)
  | raw (callback : ℕ)
  deriving DecidableEq

/-- The listener of a context at its parent, if the parent has a signal. -/
inductive Registration where
  | none | pending | admitted | stopped
  deriving DecidableEq

/-- What has ended a context: its cancel function, its own deadline, or its parent. -/
inductive Ending where
  | cancelFunc | ownDeadline | parentEnd
  deriving DecidableEq

/-- The state of a context with a cancellation of its own. -/
structure Cell (κ ν ε : Type) where
  parent : Context κ ν
  deadlineEpoch : Option ℤ
  /-- The deadline that was asked for, and the cause that is recorded when it ends the
  context. -/
  requested : Option (ℤ × ErrorValue ε)
  /-- The error and the cause, once the context has ended. -/
  observed : Option (Failure ε)
  cleanups : List Cleanup
  /-- The listeners of the signal, in the order in which they were added. -/
  listeners : List Listener
  registration : Registration
  /-- The timer of the deadline is armed. -/
  timer : Bool
  /-- The cleanups that were registered before the context ended. -/
  registered : List Cleanup
  /-- What has ended the context. -/
  endedBy : Option Ending

/-- Register a cleanup, which a set keeps once. -/
def Cell.addCleanup {κ ν ε : Type} (cell : Cell κ ν ε) (cleanup : Cleanup) : Cell κ ν ε :=
  if cleanup ∈ cell.cleanups then cell
  else
    { cell with
      cleanups := cell.cleanups ++ [cleanup]
      registered :=
        if cell.observed.isNone then cell.registered ++ [cleanup] else cell.registered }

/-- Take the listener away from the parent. -/
def Cell.stopParent {κ ν ε : Type} (cell : Cell κ ν ε) : Cell κ ν ε :=
  if cell.registration = .pending then { cell with registration := .stopped } else cell

/-- The context ends. -/
def Cell.finish {κ ν ε : Type} (failure : Failure ε) (ending : Ending) (cell : Cell κ ν ε) :
    Cell κ ν ε :=
  { cell with
    observed := some failure
    cleanups := []
    endedBy := some ending }

/-- A task of a wave: to end a context for a reason of its own, or after its parent. -/
inductive Task (ε : Type) where
  | own (node : ℕ) (failure : Failure ε) (ending : Ending)
  | fromParent (node : ℕ)

/-- The code of a caller that runs: the program itself, a listener, a cleanup, or the methods of
the foreign parent of a context, whose failure they are asked for. -/
inductive Origin where
  | host
  | listener (callback : ℕ)
  | cleanup (callback : ℕ)
  | reading (node : ℕ)
  deriving DecidableEq

/-- What is being executed. -/
inductive Frame (ε : Type) where
  | code (origin : Origin)
  /-- A signal has been aborted: the listeners still to be called, and the cleanups that the wave
  takes over then. -/
  | dispatch (node : ℕ) (listeners : List Listener) (pending : List Cleanup)
  /-- A wave, which was run for a context: its queue, and its stack of cleanups. -/
  | wave (id root : ℕ) (tasks : List (Task ε)) (cleanupFrames : List (ℕ × List Cleanup))

/-- A cleanup of a context that has been run in a wave. -/
structure Execution where
  wave : ℕ
  node : ℕ
  cleanup : Cleanup
  deriving DecidableEq

/-- The state. -/
structure Machine (κ ν ε : Type) where
  cells : ℕ → Option (Cell κ ν ε)
  next : ℕ
  nextWave : ℕ
  stack : List (Frame ε)
  /-- The cleanups that have been run, in order. -/
  ran : List Execution

namespace Machine

variable {κ ν ε : Type}

/-- Nothing has been created. -/
def initial : Machine κ ν ε := ⟨fun _ => none, 0, 0, [.code .host], []⟩

/-- The record of a node, once it has ended. -/
def observed (s : Machine κ ν ε) (node : ℕ) : Option (Failure ε) :=
  (s.cells node).bind Cell.observed

/-- Change the state of a node. -/
def adjust (s : Machine κ ν ε) (node : ℕ) (f : Cell κ ν ε → Cell κ ν ε) : Machine κ ν ε :=
  { s with cells := Function.update s.cells node ((s.cells node).map f) }

/-- The context is one of those that have been created. -/
def Knows (s : Machine κ ν ε) : Context κ ν → Prop
  | .background => True
  | .foreign _ => True
  | .value parent _ _ => s.Knows parent
  | .withoutCancel parent => s.Knows parent
  | .cancel node parent deadlineEpoch =>
      (∃ cell, s.cells node = some cell ∧ cell.parent = parent ∧
        cell.deadlineEpoch = deadlineEpoch) ∧ s.Knows parent

/-! ### Waves -/

/-- Queue a task in the wave that runs, if one does. -/
def enqueue (task : Task ε) : List (Frame ε) → Option (List (Frame ε))
  | [] => none
  | .wave id root tasks cleanupFrames :: rest =>
      some (.wave id root (tasks ++ [task]) cleanupFrames :: rest)
  | .code origin :: rest => (enqueue task rest).map (.code origin :: ·)
  | .dispatch node listeners pending :: rest =>
      (enqueue task rest).map (.dispatch node listeners pending :: ·)

/-- Run a wave with a task for a context. -/
def runCancellationWave (s : Machine κ ν ε) (root : ℕ) (task : Task ε) : Machine κ ν ε :=
  { s with
    nextWave := s.nextWave + 1
    stack := .wave s.nextWave root [task] [] :: s.stack }

/-- Queue the end of a child, or run a wave for it when none runs. -/
def enqueueParentCancellation (s : Machine κ ν ε) (node : ℕ) : Machine κ ν ε :=
  match enqueue (.fromParent node) s.stack with
  | some stack => { s with stack := stack }
  | none => s.runCancellationWave node (.fromParent node)

/-- End a context, and abort its signal. -/
def settle (s : Machine κ ν ε) (node : ℕ) (failure : Failure ε) (ending : Ending) :
    Machine κ ν ε :=
  match s.cells node with
  | none => s
  | some cell =>
      match cell.observed with
      | some _ => s
      | none =>
          ({ s with stack := .dispatch node cell.listeners cell.cleanups :: s.stack } :
              Machine κ ν ε).adjust node (Cell.finish failure ending)

/-- Cancel a context. -/
def cancel (s : Machine κ ν ε) (node : ℕ) (failure : Failure ε) (ending : Ending) :
    Machine κ ν ε :=
  match s.observed node with
  | some _ => s
  | none => s.runCancellationWave node (.own node failure ending)

/-- The listener of a child is called. -/
def cancelFromParent (s : Machine κ ν ε) (node : ℕ) : Machine κ ν ε :=
  match (s.cells node).map Cell.registration with
  | some .pending =>
      (s.adjust node (fun cell => { cell with registration := .admitted })).enqueueParentCancellation
        node
  | _ => s

/-! ### Registering -/

/-- Register a cleanup of a context. -/
def addCleanup (s : Machine κ ν ε) (node : ℕ) (cleanup : Cleanup) : Machine κ ν ε :=
  s.adjust node (fun cell => Cell.addCleanup cell cleanup)

/-- Add a listener to the signal of a context. -/
def addListener (s : Machine κ ν ε) (node : ℕ) (listener : Listener) : Machine κ ν ε :=
  s.adjust node (fun cell => { cell with listeners := cell.listeners ++ [listener] })

/-! ### Creating -/

/-- Why a context has ended that is created under a parent, if the signal of the parent has been
aborted. -/
def initialFailure [DecidableEq κ] (s : Machine κ ν ε) (methods : ForeignMethods κ ν ε)
    (foreignAborted : Bool) (parent : Context κ ν) : Option (Failure ε) :=
  match parent.resolveDone with
  | none => none
  | some (.node node) =>
      if (s.observed node).isSome then some (parent.readParentFailure methods s.observed) else none
  | some (.foreign _) =>
      if foreignAborted then some (parent.readParentFailure methods s.observed) else none

/-- The listener at the parent of a new context. -/
def newRegistration (parent : Context κ ν) (failure : Option (Failure ε)) : Registration :=
  match parent.resolveDone with
  | none => .none
  | some _ => if failure.isSome then .admitted else .pending

/-- The state of a new context. -/
def newCell (parent : Context κ ν) (deadlineEpoch : Option ℤ)
    (requested : Option (ℤ × ErrorValue ε)) (failure : Option (Failure ε)) : Cell κ ν ε where
  parent := parent
  deadlineEpoch := deadlineEpoch
  requested := requested
  observed := failure
  cleanups := if newRegistration parent failure = .pending then [.stopParent] else []
  listeners := []
  registration := newRegistration parent failure
  timer := false
  registered := if newRegistration parent failure = .pending then [.stopParent] else []
  endedBy := failure.map (fun _ => .parentEnd)

/-- The state of a new context is found under its node. -/
def registerCancelNode (s : Machine κ ν ε) (parent : Context κ ν) (deadlineEpoch : Option ℤ)
    (requested : Option (ℤ × ErrorValue ε)) (failure : Option (Failure ε)) : Machine κ ν ε :=
  { s with
    cells := Function.update s.cells s.next
      (some (newCell parent deadlineEpoch requested failure))
    next := s.next + 1 }

/-- Create a context under a parent. -/
def newCancelContext (s : Machine κ ν ε) (parent : Context κ ν) (deadlineEpoch : Option ℤ)
    (requested : Option (ℤ × ErrorValue ε)) (failure : Option (Failure ε)) : Machine κ ν ε :=
  let created := s.registerCancelNode parent deadlineEpoch requested failure
  match parent.resolveDone with
  | some (.node node) =>
      if failure.isSome then created else created.addListener node (.child s.next)
  | _ => created

/-- How the timer of a new context starts. -/
inductive TimerStart where
  /-- A clock throws or is not finite. -/
  | clockFails
  /-- The deadline has passed. -/
  | due
  | armed
  /-- The timer cannot be set. -/
  | timerFails
  deriving DecidableEq

/-- Start the timer of a new context. -/
def startDeadlineTimer (s : Machine κ ν ε) (node : ℕ) (cause : ErrorValue ε) :
    TimerStart → Machine κ ν ε
  | .clockFails => s.cancel node ⟨.canceled, .context .canceled⟩ .cancelFunc
  | .due => s.cancel node ⟨.deadlineExceeded, cause⟩ .ownDeadline
  | .armed =>
      (s.addCleanup node .stopTimer).adjust node (fun cell => { cell with timer := true })
  | .timerFails =>
      (s.addCleanup node .stopTimer).cancel node ⟨.canceled, .context .canceled⟩ .cancelFunc

/-- Create a context with a deadline. The timer is the parent's when its deadline is earlier. -/
def newTimedContext (s : Machine κ ν ε) (methods : ForeignMethods κ ν ε) (parent : Context κ ν)
    (requestedEpoch : ℤ) (cause : ErrorValue ε) (failure : Option (Failure ε))
    (start : TimerStart) : Machine κ ν ε :=
  match parent.resolveDeadline methods with
  | some parentEpoch =>
      if parentEpoch < requestedEpoch then
        s.newCancelContext parent none (some (requestedEpoch, cause)) failure
      else own
  | none => own
where
  own : Machine κ ν ε :=
    let created :=
      s.newCancelContext parent (some requestedEpoch) (some (requestedEpoch, cause)) failure
    if failure.isSome then created else created.startDeadlineTimer s.next cause start

/-! ### Steps -/

/-- A wave runs. -/
def InWave (s : Machine κ ν ε) : Prop :=
  ∃ id root tasks cleanupFrames, Frame.wave id root tasks cleanupFrames ∈ s.stack

/-- One step. Code of a caller acts on contexts that it knows and then ends, by a return or by
throwing; the signals of foreign contexts are aborted by code of a caller, in states of which
`aborts` holds. -/
inductive Step [DecidableEq κ] (aborts : Machine κ ν ε → Prop) :
    Machine κ ν ε → Machine κ ν ε → Prop
  /-- `withCancel` or `withCancelCause`. -/
  | withCancel {s : Machine κ ν ε} {origin : Origin} {rest : List (Frame ε)}
      (hstack : s.stack = .code origin :: rest) (methods : ForeignMethods κ ν ε)
      (foreignAborted : Bool) (parent : Context κ ν) (hparent : s.Knows parent) :
      Step aborts s
        (s.newCancelContext parent none none (s.initialFailure methods foreignAborted parent))
  /-- `withDeadline`, `withTimeout` and those with a cause. -/
  | withDeadline {s : Machine κ ν ε} {origin : Origin} {rest : List (Frame ε)}
      (hstack : s.stack = .code origin :: rest) (methods : ForeignMethods κ ν ε)
      (foreignAborted : Bool) (parent : Context κ ν) (hparent : s.Knows parent)
      (requestedEpoch : ℤ) (cause : ErrorValue ε) (start : TimerStart) :
      Step aborts s
        (s.newTimedContext methods parent requestedEpoch cause
          (s.initialFailure methods foreignAborted parent) start)
  | addCleanup {s : Machine κ ν ε} {origin : Origin} {rest : List (Frame ε)}
      (hstack : s.stack = .code origin :: rest) (node callback : ℕ) :
      Step aborts s (s.addCleanup node (.work callback))
  | addListener {s : Machine κ ν ε} {origin : Origin} {rest : List (Frame ε)}
      (hstack : s.stack = .code origin :: rest) (node callback : ℕ) :
      Step aborts s (s.addListener node (.raw callback))
  /-- The cancel function of a context is called. -/
  | cancelFunc {s : Machine κ ν ε} {origin : Origin} {rest : List (Frame ε)}
      (hstack : s.stack = .code origin :: rest) (node : ℕ) (cause : ErrorValue ε)
      (hnode : s.cells node ≠ none) :
      Step aborts s (s.cancel node ⟨.canceled, cause⟩ .cancelFunc)
  /-- The timer of a context reaches its deadline. -/
  | deadline {s : Machine κ ν ε} {origin : Origin} {rest : List (Frame ε)}
      (hstack : s.stack = .code origin :: rest) (node : ℕ) {cell : Cell κ ν ε}
      (hcell : s.cells node = some cell) (htimer : cell.timer = true) {epoch : ℤ}
      {cause : ErrorValue ε} (hrequested : cell.requested = some (epoch, cause)) :
      Step aborts s (s.cancel node ⟨.deadlineExceeded, cause⟩ .ownDeadline)
  /-- The signal of a foreign parent is aborted, or its hook calls back. -/
  | foreignAborts {s : Machine κ ν ε} {origin : Origin} {rest : List (Frame ε)}
      (hstack : s.stack = .code origin :: rest) (haborts : aborts s) (node : ℕ)
      {cell : Cell κ ν ε} (hcell : s.cells node = some cell) {id : ℕ}
      (hparent : cell.parent.resolveDone = some (.foreign id)) :
      Step aborts s (s.cancelFromParent node)
  /-- A listener returns or throws. -/
  | listenerEnds {s : Machine κ ν ε} {callback : ℕ} {rest : List (Frame ε)}
      (hstack : s.stack = .code (.listener callback) :: rest) :
      Step aborts s { s with stack := rest }
  /-- A cleanup returns or throws. -/
  | cleanupEnds {s : Machine κ ν ε} {callback : ℕ} {rest : List (Frame ε)}
      (hstack : s.stack = .code (.cleanup callback) :: rest) :
      Step aborts s { s with stack := rest }
  /-- The methods of a foreign parent have returned. -/
  | parentRead {s : Machine κ ν ε} {node : ℕ} {rest : List (Frame ε)}
      (hstack : s.stack = .code (.reading node) :: rest) (methods : ForeignMethods κ ν ε)
      {cell : Cell κ ν ε} (hcell : s.cells node = some cell) :
      Step aborts s
        (({ s with stack := rest } : Machine κ ν ε).settle node
          (cell.parent.readParentFailure methods s.observed) .parentEnd)
  /-- A method of a foreign parent throws, and with it the wave. -/
  | parentThrows {s : Machine κ ν ε} {node id root : ℕ} {tasks : List (Task ε)}
      {cleanupFrames : List (ℕ × List Cleanup)} {rest : List (Frame ε)}
      (hstack : s.stack = .code (.reading node) :: .wave id root tasks cleanupFrames :: rest) :
      Step aborts s { s with stack := rest }
  /-- The wave ends a context for a reason of its own. -/
  | takesOwn {s : Machine κ ν ε} {id root node : ℕ} {failure : Failure ε} {ending : Ending}
      {tasks : List (Task ε)} {cleanupFrames : List (ℕ × List Cleanup)} {rest : List (Frame ε)}
      (hstack : s.stack = .wave id root (.own node failure ending :: tasks) cleanupFrames :: rest) :
      Step aborts s
        (({ s with stack := .wave id root tasks cleanupFrames :: rest } : Machine κ ν ε).settle
          node failure ending)
  /-- The wave ends a child after its parent. -/
  | takesChild {s : Machine κ ν ε} {id root node : ℕ} {tasks : List (Task ε)}
      {cleanupFrames : List (ℕ × List Cleanup)} {rest : List (Frame ε)}
      (hstack : s.stack = .wave id root (.fromParent node :: tasks) cleanupFrames :: rest)
      {cell : Cell κ ν ε} (hcell : s.cells node = some cell) {parentNode : ℕ}
      (hparent : cell.parent.resolveDone = some (.node parentNode))
      (methods : ForeignMethods κ ν ε) :
      Step aborts s
        (({ s with stack := .wave id root tasks cleanupFrames :: rest } : Machine κ ν ε).settle
          node (cell.parent.readParentFailure methods s.observed) .parentEnd)
  /-- The wave asks the foreign parent of a child. -/
  | readsParent {s : Machine κ ν ε} {id root node : ℕ} {tasks : List (Task ε)}
      {cleanupFrames : List (ℕ × List Cleanup)} {rest : List (Frame ε)}
      (hstack : s.stack = .wave id root (.fromParent node :: tasks) cleanupFrames :: rest)
      {cell : Cell κ ν ε} (hcell : s.cells node = some cell) {foreign : ℕ}
      (hparent : cell.parent.resolveDone = some (.foreign foreign)) :
      Step aborts s
        { s with stack := .code (.reading node) :: .wave id root tasks cleanupFrames :: rest }
  /-- The listener of a child is called. -/
  | callsChild {s : Machine κ ν ε} {node child : ℕ} {listeners : List Listener}
      {pending : List Cleanup} {rest : List (Frame ε)}
      (hstack : s.stack = .dispatch node (.child child :: listeners) pending :: rest) :
      Step aborts s
        (({ s with stack := .dispatch node listeners pending :: rest } : Machine κ ν ε).cancelFromParent
          child)
  /-- A listener of a caller is called. -/
  | callsRaw {s : Machine κ ν ε} {node callback : ℕ} {listeners : List Listener}
      {pending : List Cleanup} {rest : List (Frame ε)}
      (hstack : s.stack = .dispatch node (.raw callback :: listeners) pending :: rest) :
      Step aborts s
        { s with
          stack := .code (.listener callback) :: .dispatch node listeners pending :: rest }
  /-- All listeners have been called, and the wave takes over the cleanups. -/
  | dispatched {s : Machine κ ν ε} {node id root : ℕ} {pending : List Cleanup}
      {tasks : List (Task ε)} {cleanupFrames : List (ℕ × List Cleanup)} {rest : List (Frame ε)}
      (hstack : s.stack = .dispatch node [] pending :: .wave id root tasks cleanupFrames :: rest) :
      Step aborts s
        { s with
          stack :=
            .wave id root tasks
              (if pending = [] then cleanupFrames else (node, pending) :: cleanupFrames) :: rest }
  /-- The queue is empty, and the next cleanup takes the listener away from the parent. -/
  | stopsParent {s : Machine κ ν ε} {id root node : ℕ} {cleanups : List Cleanup}
      {cleanupFrames : List (ℕ × List Cleanup)} {rest : List (Frame ε)}
      (hstack : s.stack =
        .wave id root [] ((node, .stopParent :: cleanups) :: cleanupFrames) :: rest) :
      Step aborts s
        (({ s with
            stack := .wave id root [] ((node, cleanups) :: cleanupFrames) :: rest
            ran := s.ran ++ [⟨id, node, .stopParent⟩] } : Machine κ ν ε).adjust node
          Cell.stopParent)
  /-- The next cleanup stops the timer. -/
  | stopsTimer {s : Machine κ ν ε} {id root node : ℕ} {cleanups : List Cleanup}
      {cleanupFrames : List (ℕ × List Cleanup)} {rest : List (Frame ε)}
      (hstack : s.stack =
        .wave id root [] ((node, .stopTimer :: cleanups) :: cleanupFrames) :: rest) :
      Step aborts s
        (({ s with
            stack := .wave id root [] ((node, cleanups) :: cleanupFrames) :: rest
            ran := s.ran ++ [⟨id, node, .stopTimer⟩] } : Machine κ ν ε).adjust node
          (fun cell => { cell with timer := false }))
  /-- The next cleanup is code of a caller. -/
  | runsWork {s : Machine κ ν ε} {id root node callback : ℕ} {cleanups : List Cleanup}
      {cleanupFrames : List (ℕ × List Cleanup)} {rest : List (Frame ε)}
      (hstack : s.stack =
        .wave id root [] ((node, .work callback :: cleanups) :: cleanupFrames) :: rest) :
      Step aborts s
        { s with
          stack := .code (.cleanup callback) ::
            .wave id root [] ((node, cleanups) :: cleanupFrames) :: rest
          ran := s.ran ++ [⟨id, node, .work callback⟩] }
  /-- The cleanups of a context have been run. -/
  | cleanupsEnd {s : Machine κ ν ε} {id root node : ℕ}
      {cleanupFrames : List (ℕ × List Cleanup)} {rest : List (Frame ε)}
      (hstack : s.stack = .wave id root [] ((node, []) :: cleanupFrames) :: rest) :
      Step aborts s { s with stack := .wave id root [] cleanupFrames :: rest }
  /-- The wave has come to its end. -/
  | waveEnds {s : Machine κ ν ε} {id root : ℕ} {rest : List (Frame ε)}
      (hstack : s.stack = .wave id root [] [] :: rest) :
      Step aborts s { s with stack := rest }

/-- The states of runs. -/
def Reachable [DecidableEq κ] (aborts : Machine κ ν ε → Prop) (s : Machine κ ν ε) : Prop :=
  Relation.ReflTransGen (Step aborts) initial s

end Machine

end ContextTree
