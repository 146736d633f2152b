import Mathlib.Data.List.Count
import Mathlib.Logic.Relation

/-!
# The snapshot queue of a watcher

A queue hands snapshots to the calls of `next` that wait for one, and keeps the others. Each call
waits under a context of its caller, whose methods run while the queue is in the middle of an
operation and may call the queue again. The machine below is one queue: a stack holds the program
points of its open operations, code outside acts when the point on top is inside a method of a
context, and otherwise the operation on top takes its next turn.
-/

namespace Registry.Mdns.SnapshotQueue

inductive WaiterState where
  | waiting
  | claiming
  | delivered
  | abandoned
  deriving DecidableEq

inductive OwnerState where
  | running
  | stopped
  | failed
  deriving DecidableEq

/-- The operation that hands a value to a waiter. -/
inductive Operation where
  | next
  | push
  deriving DecidableEq

/-- A program point of an open operation. Calls of `next` are numbered in their order. -/
inductive Frame (α ε : Type) where
  /-- In the methods of a context that tell its cause, at the beginning of `next`. -/
  | entering (call : ℕ)
  /-- In `afterFunc`. -/
  | registering (call : ℕ)
  /-- In the `stop` of a waiter to which a value is delivered. -/
  | delivering (call : ℕ) (value : α) (operation : Operation)
  /-- `deliverWaiter` returns `false`. -/
  | undelivered (value : α) (operation : Operation)
  /-- At the loop of `push`. -/
  | pushing (value : α)
  /-- At the `finally` of an operation. -/
  | returning
  /-- At the loop of `rejectWaiters`. -/
  | rejectingAll (error : ε) (rest : List ℕ)
  /-- In the `stop` of a waiter that is rejected. -/
  | rejecting (call : ℕ) (error : ε)
  /-- In the methods of a context that tell its cause, after its cancellation. -/
  | canceling (call : ℕ)

/-- Code outside runs at this point. -/
def Frame.isForeign {α ε : Type} : Frame α ε → Bool
  | entering _ => true
  | registering _ => true
  | delivering _ _ _ => true
  | rejecting _ _ => true
  | canceling _ => true
  | _ => false

/-- What has happened. -/
inductive Event (α ε : Type) where
  /-- A call of `next`. -/
  | called (call : ℕ)
  /-- A call of `push` has taken its snapshot. -/
  | pushed (value : α)
  | resolved (call : ℕ) (value : α)
  | rejected (call : ℕ) (error : ε)
  /-- The queue has stopped, failed or overflowed. -/
  | terminal (error : ε)
  | published

/-- What a queue is created with, and the errors it uses. -/
structure Options (ε : Type) where
  bufferSize : ℕ
  bounds : 1 ≤ bufferSize ∧ bufferSize ≤ 4096
  stoppedError : ε
  overflowError : ε
  /-- For a context that tells no cause of its cancellation. -/
  canceled : ε

/-- A queue. -/
structure Queue (α ε : Type) where
  values : List α
  waiters : List ℕ
  /-- The waiters that are not settled, in the order in which they were added. -/
  ownedWaiters : List ℕ
  /-- The waiters of the calls that have registered one. -/
  waiterStates : ℕ → Option WaiterState
  state : OwnerState
  failure : Option ε
  activeOperations : ℕ
  publishingTerminal : Bool
  terminalPublished : Bool
  /-- The number of calls of `next`. -/
  calls : ℕ
  stack : List (Frame α ε)
  /-- What has happened, the latest event first. -/
  events : List (Event α ε)

/-- A value that code outside returns: the cause of a context, or whether it has stopped. -/
structure Value (ε : Type) where
  failure : Option ε
  stopped : Bool

/-- What happens next: the operation on top takes a turn, or code outside calls or returns. -/
inductive Act (α ε : Type) where
  | run
  | next
  /-- A call of `push`, with a snapshot if its argument is one. -/
  | push (snapshot : Option α)
  | fail (error : ε)
  | stop
  /-- A context calls the callback that a call of `next` has registered. -/
  | cancel (call : ℕ)
  | returns (value : Value ε)
  | throws (error : ε)

variable {α ε : Type} (o : Options ε)

/-- A queue as it is created. -/
def newSnapshotQueue : Queue α ε where
  values := []
  waiters := []
  ownedWaiters := []
  waiterStates := fun _ => none
  state := .running
  failure := none
  activeOperations := 0
  publishingTerminal := false
  terminalPublished := false
  calls := 0
  stack := []
  events := []

namespace Queue

variable (s : Queue α ε)

def enter (frame : Frame α ε) : Queue α ε := { s with stack := frame :: s.stack }

def log (event : Event α ε) : Queue α ε := { s with events := event :: s.events }

def setWaiter (call : ℕ) (state : WaiterState) : Queue α ε :=
  { s with waiterStates := Function.update s.waiterStates call (some state) }

/-- A waiter is settled. -/
def close (call : ℕ) (state : WaiterState) : Queue α ε :=
  { s.setWaiter call state with ownedWaiters := s.ownedWaiters.filter (· ≠ call) }

/-- The error of a queue that has ended. -/
def ownerError : Option ε :=
  match s.failure with
  | some error => some error
  | none => if s.state = .stopped then some o.stoppedError else none

/-- Reject a waiter after the cancellation of its context has won. -/
def abandonWaiter (call : ℕ) (error : ε) : Queue α ε :=
  if s.waiterStates call ≠ some .waiting then s
  else (s.close call .abandoned).log (.rejected call error)

/-- The end of the queue is published after the operations that are open. -/
def publishTerminal : Queue α ε :=
  if s.state = .running ∨ s.terminalPublished ∨ s.publishingTerminal ∨ s.activeOperations ≠ 0 then s
  else
    { s with publishingTerminal := true, waiters := [] }.enter
      (.rejectingAll (s.failure.getD o.stoppedError) s.ownedWaiters)

/-- The callback that is registered for a call. -/
def canceledWaiter (call : ℕ) : Queue α ε :=
  let s := { s with activeOperations := s.activeOperations + 1 }
  if s.waiterStates call ≠ some .waiting then s.enter .returning
  else { s with waiters := s.waiters.erase call }.enter (.canceling call)

/-- Begin to deliver a value to a waiter. -/
def deliverWaiter (call : ℕ) (value : α) (operation : Operation) : Queue α ε :=
  if s.waiterStates call ≠ some .waiting then s.enter (.undelivered value operation)
  else (s.setWaiter call .claiming).enter (.delivering call value operation)

/-- The waiter has been claimed for the value. -/
def claimed (call : ℕ) (value : α) (operation : Operation) : Queue α ε :=
  match s.ownerError o with
  | some error =>
      ((s.close call .abandoned).log (.rejected call error)).enter (.undelivered value operation)
  | none =>
      let s := (s.close call .delivered).log (.resolved call value)
      match operation with
      | .next => { s with values := s.values.tail }.enter .returning
      | .push => s.enter .returning

/-! ### The turns of operations -/

/-- A turn of the loop of `push`. -/
def pushNext (value : α) : Queue α ε :=
  match s.waiters with
  | [] =>
      if s.values.length ≥ o.bufferSize then
        ({ s with failure := some o.overflowError, state := .failed, values := [] }.log
          (.terminal o.overflowError)).enter .returning
      else { s with values := s.values ++ [value] }.enter .returning
  | call :: rest => { s with waiters := rest }.deliverWaiter call value .push

/-- A turn of the loop of `rejectWaiters`. -/
def rejectNext (error : ε) : List ℕ → Queue α ε
  | [] => { s with terminalPublished := true, publishingTerminal := false }.log .published
  | call :: rest =>
      let s := s.enter (.rejectingAll error rest)
      if s.waiterStates call ≠ some .waiting then s
      else (s.setWaiter call .claiming).enter (.rejecting call error)

/-- The turn of the operation on top. -/
def turn : Frame α ε → Option (Queue α ε)
  | .undelivered _ .next => some (s.enter .returning)
  | .undelivered value .push =>
      some (if (s.ownerError o).isSome then s.enter .returning else s.enter (.pushing value))
  | .pushing value => some (s.pushNext o value)
  | .returning => some ({ s with activeOperations := s.activeOperations - 1 }.publishTerminal o)
  | .rejectingAll error rest => some (s.rejectNext error rest)
  | _ => none

/-! ### What code outside does -/

/-- A call of `next`. -/
def next : Queue α ε :=
  let call := s.calls
  let s := { s with calls := call + 1, activeOperations := s.activeOperations + 1 }.log (.called call)
  match s.ownerError o with
  | some error => (s.log (.rejected call error)).enter .returning
  | none => s.enter (.entering call)

/-- A call of `push`. -/
def push (snapshot : Option α) : Queue α ε :=
  let s := { s with activeOperations := s.activeOperations + 1 }
  match s.ownerError o, snapshot with
  | none, some value => (s.log (.pushed value)).enter (.pushing value)
  | _, _ => s.enter .returning

/-- The queue ends with an error. -/
def terminate (state : OwnerState) (failure : Option ε) (error : ε) : Queue α ε :=
  ({ s with state := state, failure := failure, values := [] }.log (.terminal error)).publishTerminal o

/-- A call of `fail`. -/
def fail (error : ε) : Queue α ε :=
  if (s.ownerError o).isSome then s else s.terminate o .failed (some error) error

/-- A call of `stop`. -/
def stop : Queue α ε :=
  if s.state = .running then s.terminate o .stopped s.failure o.stoppedError else s

/-- The waiter of a call is there. -/
def admitWaiter (call : ℕ) : Queue α ε :=
  let s := { s.setWaiter call .waiting with ownedWaiters := s.ownedWaiters ++ [call] }
  if (s.ownerError o).isSome then s.enter .returning
  else
    match s.values with
    | value :: _ => s.deliverWaiter call value .next
    | [] => { s with waiters := s.waiters ++ [call] }.enter .returning

/-- A method on top returns. -/
def resume (value : Value ε) : Frame α ε → Queue α ε
  | .entering call =>
      match s.ownerError o, value.failure with
      | some error, _ => (s.log (.rejected call error)).enter .returning
      | none, some error => (s.log (.rejected call error)).enter .returning
      | none, none => s.enter (.registering call)
  | .registering call => s.admitWaiter o call
  | .delivering call snapshot operation =>
      if value.stopped then s.claimed o call snapshot operation
      else ((s.setWaiter call .waiting).enter (.undelivered snapshot operation)).canceledWaiter call
  | .rejecting call error =>
      if value.stopped then (s.close call .abandoned).log (.rejected call error)
      else (s.setWaiter call .waiting).canceledWaiter call
  | .canceling call => (s.abandonWaiter call (value.failure.getD o.canceled)).enter .returning
  | frame => s.enter frame

/-- A method on top throws. A `stop` that throws counts as one that has stopped. -/
def raise (error : ε) : Frame α ε → Queue α ε
  | .entering call => (s.log (.rejected call ((s.ownerError o).getD error))).enter .returning
  | .registering call => (s.log (.rejected call ((s.ownerError o).getD error))).enter .returning
  | .delivering call snapshot operation => s.claimed o call snapshot operation
  | .rejecting call error => (s.close call .abandoned).log (.rejected call error)
  | .canceling call => (s.abandonWaiter call error).enter .returning
  | frame => s.enter frame

/-- Code outside runs. -/
def isOutside : Bool := s.stack.head?.all Frame.isForeign

/-- A call or a return of code outside. -/
def outside : Act α ε → Option (Queue α ε)
  | .run => none
  | .next => some (s.next o)
  | .push snapshot => some (s.push o snapshot)
  | .fail error => some (s.fail o error)
  | .stop => some (s.stop o)
  | .cancel call => if call < s.calls then some (s.canceledWaiter call) else none
  | .returns value =>
      match s.stack with
      | [] => none
      | frame :: below => some ({ s with stack := below }.resume o value frame)
  | .throws error =>
      match s.stack with
      | [] => none
      | frame :: below => some ({ s with stack := below }.raise o error frame)

/-- A step, where it can be taken. -/
def step (act : Act α ε) : Option (Queue α ε) :=
  if s.isOutside then s.outside o act
  else
    match act, s.stack with
    | .run, frame :: below => { s with stack := below }.turn o frame
    | _, _ => none

end Queue

/-- The queues that acts lead to, as far as they are allowed. -/
inductive Reachable (allowed : Queue α ε → Act α ε → Prop) : Queue α ε → Prop
  | created : Reachable allowed newSnapshotQueue
  | step {s s' : Queue α ε} {act : Act α ε} (h : Reachable allowed s) (hallowed : allowed s act)
      (hstep : s.step o act = some s') : Reachable allowed s'

end Registry.Mdns.SnapshotQueue
