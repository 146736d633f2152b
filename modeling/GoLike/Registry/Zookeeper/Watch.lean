import GoLike.Lib.ChangeLog
import GoLike.Registry.Outlet
import GoLike.Registry.Zookeeper.Codec

/-!
# The ZooKeeper watcher

The watcher keeps a snapshot of the instances of a service. A reconciliation reads the
directory of the service, and sets a one-shot watch on it unless the watcher is armed.
Reconciliations are chained on a queue, except for the one that the recovery of a session
runs itself.

The requests of the reconciliations that run are served one at a time, at any time, and
their replies arrive at any later time.
-/

open Store ChangeLog

namespace Registry.Zookeeper

variable {urls : UrlParser}

/-! ### The state -/

/-- What a request throws. -/
inductive Thrown where
  | operation (retryable : Bool)
  | registry (e : RegistryError)
  | other

/-- The failure is one of availability. -/
def isRetryable : Thrown → Bool
  | .operation retryable => retryable
  | _ => false

/-- How far a reconciliation has got. -/
inductive Stage (urls : UrlParser) where
  /-- The children are asked for. -/
  | children
  /-- The names of the children are on their way; `none` when there is no directory. -/
  | listed (names : Option (List JsString))
  /-- The children that remain to be read, and the records of the others. -/
  | data (remaining : List JsString) (records : List (DecodedRecord urls))

/-- A reconciliation that runs. -/
structure Reconciliation (urls : UrlParser) where
  /-- The recovery of a session runs it, and not the queue. -/
  own : Bool
  client : ℕ
  /-- It sets a watch. -/
  watching : Bool
  stage : Stage urls
  /-- The number and the revision of its read of the children. Nothing depends on them. -/
  number : ℕ
  revision : ℕ

/-- What the recovery of a session waits for. -/
inductive Recovery where
  /-- The close of the client that has expired. -/
  | closing
  /-- The connection of a new client. -/
  | connecting
  /-- The close of a new client that has failed. -/
  | abandoning (value : Thrown)
  | waiting

/-- The session of the active client. -/
inductive Session where
  | connected
  | disconnected
  | closed
  deriving DecidableEq

/-- What a watcher is created with. -/
structure WatcherOptions (urls : UrlParser) where
  codec : ChildCodec urls
  serviceName : JsString
  bufferSize : ℕ

/-- What each revision commits: the directory of the service after it, or a change
elsewhere. -/
abbrev Commits : Type := Timeline Directory

/-- The watcher and the servers. Clients are numbered. -/
structure World (urls : UrlParser) where
  /-- The revision of the tree. -/
  revision : ℕ
  outlet : Outlet urls Thrown
  armed : Bool
  activeClient : ℕ
  /-- The number of clients. -/
  clients : ℕ
  session : Session
  /-- The recovery that goes on. -/
  recovery : Option Recovery
  /-- The number of reconciliations that are scheduled. -/
  scheduled : ℕ
  running : List (Reconciliation urls)
  /-- The clients of the watches that are outstanding. -/
  watches : List ℕ
  /-- The number of reads of the children. Nothing depends on it. -/
  reads : ℕ
  /-- The numbers of the reads whose snapshots were published, in order. Nothing depends on
  it. -/
  published : List ℕ
  /-- How the last reconciliation ended: with the revision of its read, if it succeeded.
  Nothing depends on it. -/
  last : Option (Option ℕ)

/-! ### Reconciliations -/

namespace World

/-- A reconciliation is scheduled. -/
def schedule (s : World urls) : World urls := { s with scheduled := s.scheduled + 1 }

/-- Start a reconciliation. -/
def reconcile (s : World urls) (own : Bool) : World urls :=
  if s.outlet.aborted ∨ s.recovery.isSome then s
  else
    { s with
      armed := true
      running := s.running ++ [⟨own, s.activeClient, !s.armed, .children, 0, 0⟩] }

/-- What a reconciliation throws: the failures of availability are ignored. -/
def caught (s : World urls) (value : Thrown) : World urls :=
  if s.outlet.aborted ∨ isRetryable value then { s with last := some none }
  else { s with outlet := s.outlet.fail (.provider value), last := some none }

/-- A watch call has thrown. -/
def watchFailed (s : World urls) (r : Reconciliation urls) : World urls :=
  if r.watching then { s with armed := false } else s

/-- The names of the children arrive, or that there is no directory. The reconciliation
stands between the others in the list. -/
def listed (s : World urls) (l₁ l₂ : List (Reconciliation urls)) (r : Reconciliation urls) :
    Option (List JsString) → World urls
  | some names => { s with running := l₁ ++ { r with stage := .data names [] } :: l₂ }
  | none => watchFailed { s with running := l₁ ++ { r with stage := .data [] [] } :: l₂ } r

/-- The next child has been read. -/
def dataRead (s : World urls) (l₁ l₂ : List (Reconciliation urls)) (r : Reconciliation urls)
    (remaining : List JsString) (records : List (DecodedRecord urls)) :
    Except RegistryError (List (DecodedRecord urls)) → World urls
  | .ok found =>
      { s with running := l₁ ++ { r with stage := .data remaining (records ++ found) } :: l₂ }
  | .error e => caught { s with running := l₁ ++ l₂ } (.registry e)

/-- The snapshot of a reconciliation is published. -/
def publish (options : WatcherOptions urls) (s : World urls) (r : Reconciliation urls)
    (records : List (DecodedRecord urls)) : World urls :=
  match sortedInstances records options.serviceName with
  | .error e => s.caught (.registry e)
  | .ok next =>
      { s with
        outlet := s.outlet.publish next
        published := s.published ++ [r.number]
        last := some (some r.revision) }

/-! ### Recovery -/

/-- The session of the active client has expired. -/
def recover (s : World urls) : World urls :=
  if s.outlet.aborted ∨ s.recovery.isSome then { s with session := .closed }
  else { s with session := .closed, recovery := some .closing, armed := false }

/-- Connect the next client, unless the watcher has ended. -/
def connect (s : World urls) : World urls :=
  { s with recovery := if s.outlet.aborted then none else some .connecting }

/-- A new client is connected. It is made the active client, and the recovery runs a
reconciliation. -/
def recovered (s : World urls) : World urls :=
  { s with
    activeClient := s.clients
    clients := s.clients + 1
    session := .connected
    recovery := none }.reconcile true

/-- A new client that has failed is closed. -/
def abandoned (s : World urls) (value : Thrown) : World urls :=
  if isRetryable value then { s with recovery := some .waiting }
  else { s with recovery := none, outlet := s.outlet.fail (.provider value) }

end World

/-- The directory at a revision. -/
def directoryAt (commits : Commits) (r : ℕ) : Directory := stateAt none commits r

/-! ### Steps -/

/-- What happens. -/
inductive Action (urls : UrlParser) where
  | commit
  | schedule
  | start
  | served (r : Reconciliation urls)
  | listed (r : Reconciliation urls)
  | childrenFailed (r : Reconciliation urls)
  | dataRead (r : Reconciliation urls)
  | dataFailed (r : Reconciliation urls)
  | published (r : Reconciliation urls)
  | fired (client : ℕ)
  | disconnected
  | connected
  | expired
  | authenticationFailed
  | closed
  | recovered
  | recoveryFailed
  | abandoned
  | waited
  | interrupted
  | call

/-- A step. -/
inductive Step (options : WatcherOptions urls) (commits : Commits) :
    Action urls → World urls → World urls → Prop where
  /-- The tree changes. -/
  | commit {s : World urls} : Step options commits .commit s { s with revision := s.revision + 1 }
  /-- A timer fires, or a local change is notified. -/
  | schedule {s : World urls} : Step options commits .schedule s s.schedule
  /-- The next reconciliation of the queue starts. -/
  | start {s : World urls} {n : ℕ} (hscheduled : s.scheduled = n + 1)
      (hqueue : ∀ r ∈ s.running, r.own = true) :
      Step options commits .start s ({ s with scheduled := n }.reconcile false)
  /-- A server lists the children, and sets the watch if there is a directory. -/
  | served {s : World urls} {r : Reconciliation urls} {l₁ l₂ : List (Reconciliation urls)}
      (hrunning : s.running = l₁ ++ r :: l₂) (hstage : r.stage = .children) :
      Step options commits (.served r) s
        { s with
          running := l₁ ++
            { r with
              stage := .listed ((directoryAt commits s.revision).map childNames)
              number := s.reads
              revision := s.revision } :: l₂
          watches :=
            if r.watching ∧ (directoryAt commits s.revision).isSome then r.client :: s.watches
            else s.watches
          reads := s.reads + 1 }
  /-- The names of the children arrive, or that there is no directory. -/
  | listed {s : World urls} {r : Reconciliation urls} {l₁ l₂ : List (Reconciliation urls)}
      {names : Option (List JsString)} (hrunning : s.running = l₁ ++ r :: l₂)
      (hstage : r.stage = .listed names) :
      Step options commits (.listed r) s (s.listed l₁ l₂ r names)
  /-- The list of the children fails. When the reply is on its way the call is aborted. -/
  | childrenFailed {s : World urls} {r : Reconciliation urls} {l₁ l₂ : List (Reconciliation urls)}
      {value : Thrown} (hrunning : s.running = l₁ ++ r :: l₂)
      (hstage : r.stage = .children ∨ (∃ names, r.stage = .listed names) ∧ value = .other) :
      Step options commits (.childrenFailed r) s
        ((World.watchFailed { s with running := l₁ ++ l₂ } r).caught value)
  /-- The next child is read; a child that is gone is left out. -/
  | dataRead {s : World urls} {r : Reconciliation urls} {l₁ l₂ : List (Reconciliation urls)}
      {segment : JsString} {remaining : List JsString} {records : List (DecodedRecord urls)}
      (hrunning : s.running = l₁ ++ r :: l₂)
      (hstage : r.stage = .data (segment :: remaining) records) :
      Step options commits (.dataRead r) s
        (s.dataRead l₁ l₂ r remaining records
          (readChild options.codec (directoryAt commits s.revision) segment))
  | dataFailed {s : World urls} {r : Reconciliation urls} {l₁ l₂ : List (Reconciliation urls)}
      {remaining : List JsString} {records : List (DecodedRecord urls)} {value : Thrown}
      (hrunning : s.running = l₁ ++ r :: l₂) (hstage : r.stage = .data remaining records) :
      Step options commits (.dataFailed r) s (World.caught { s with running := l₁ ++ l₂ } value)
  /-- Every child has been read. -/
  | published {s : World urls} {r : Reconciliation urls} {l₁ l₂ : List (Reconciliation urls)}
      {records : List (DecodedRecord urls)} (hrunning : s.running = l₁ ++ r :: l₂)
      (hstage : r.stage = .data [] records) :
      Step options commits (.published r) s
        (World.publish options { s with running := l₁ ++ l₂ } r records)
  /-- The callback of a watch is called. -/
  | fired {s : World urls} {client : ℕ} (hwatch : client ∈ s.watches) :
      Step options commits (.fired client) s
        { s with armed := false, watches := s.watches.erase client }.schedule
  | disconnected {s : World urls} (hsession : s.session = .connected) :
      Step options commits .disconnected s { s with session := .disconnected }
  /-- The active client has connected again. -/
  | connected {s : World urls} (hsession : s.session = .disconnected) :
      Step options commits .connected s { s with session := .connected }.schedule
  | expired {s : World urls} (hsession : s.session = .disconnected) :
      Step options commits .expired s s.recover
  | authenticationFailed {s : World urls} :
      Step options commits .authenticationFailed s
        { s with
          outlet := s.outlet.fail (.provider
            (.registry (.protocol "ZooKeeper watcher authentication failed"))) }
  /-- The client that has expired is closed. -/
  | closed {s : World urls} (hrecovery : s.recovery = some .closing) :
      Step options commits .closed s s.connect
  | recovered {s : World urls} (hrecovery : s.recovery = some .connecting) :
      Step options commits .recovered s s.recovered
  | recoveryFailed {s : World urls} (hrecovery : s.recovery = some .connecting) (value : Thrown) :
      Step options commits .recoveryFailed s { s with recovery := some (.abandoning value) }
  | abandoned {s : World urls} {value : Thrown} (hrecovery : s.recovery = some (.abandoning value)) :
      Step options commits .abandoned s (s.abandoned value)
  | waited {s : World urls} (hrecovery : s.recovery = some .waiting) :
      Step options commits .waited s s.connect
  /-- The recovery waits no longer when the watcher has ended. -/
  | interrupted {s : World urls} (hrecovery : s.recovery = some .waiting)
      (haborted : s.outlet.aborted = true) :
      Step options commits .interrupted s { s with recovery := none }
  | call {s : World urls} (call : Outlet.Call) :
      Step options commits .call s { s with outlet := s.outlet.perform call }

/-- A watcher that has subscribed to the state of its client and scheduled its first
reconciliation. -/
def replacementWatcher (options : WatcherOptions urls) (initial : Snapshot urls) (revision : ℕ) :
    World urls where
  revision := revision
  outlet := newOutlet options.bufferSize initial
  armed := false
  activeClient := 0
  clients := 1
  session := .connected
  recovery := none
  scheduled := 1
  running := []
  watches := []
  reads := 0
  published := []
  last := none

end Registry.Zookeeper
