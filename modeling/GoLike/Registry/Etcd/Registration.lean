import GoLike.Registry.Etcd.Protocol

/-!
# The registration managers of the etcd registry

A manager registers instances, renews their leases and deregisters them. It serializes the
operations of an identity: they take turns, in the order in which they arrive, on the state
that the manager holds for the identity. This state is dropped when no operation needs it.

The managers and etcd run together. The operations of one identity are considered.
-/

open Store Interleave

namespace Registry.Etcd

variable {urls : UrlParser} {ι : Type}

/-! ### The programs of operations -/

/-- How an operation ends, unless it throws. -/
inductive Settled where
  | finished
  /-- A heartbeat has found or restored ownership. -/
  | owned
  deriving DecidableEq

/-- Revoke a lease, as well as this succeeds. -/
def retire (lease : ℕ) : Call urls Unit := tryCatch (revokeLease lease) (fun _ => return ())

/-- Grant a lease and publish a record under it. The lease is revoked when it is not
accepted. -/
def admitRecord (wire : EncodedRecord urls) : Call urls ℕ := do
  let lease ← grantLease
  tryCatch
    (do
      publish wire lease
      return lease)
    (fun e => do
      retire lease
      throw e)

/-- Publish the previous registration again. -/
def restorePrevious (previous : ActiveRegistration urls) : Call urls Unit :=
  publish previous.wire previous.lease

/-- Restore the record of a registration that has expired under a new lease. -/
def restoreExpired (registration : ActiveRegistration urls) : Call urls Bool := do
  let lease ← grantLease
  let accepted ← tryCatch (restore registration.wire lease) (fun e => do
    retire lease
    throw e)
  if accepted then
    ask (.setLease registration.id lease)
    return true
  else
    retire lease
    return false

/-- Renew the lease of a registration, and read whether it still holds the key. -/
def stillOwns (registration : ActiveRegistration urls) : Call urls Bool := do
  let alive ← keepAlive registration.lease
  if alive then owns registration.wire registration.lease
  else return false

/-- Renew a registration, or restore it when its record is gone. -/
def renew (registration : ActiveRegistration urls) : Call urls Settled := do
  let alive ← stillOwns registration
  if alive then return .owned
  else
    let restored ← restoreExpired registration
    if restored then return .owned
    else
      ask (.deactivate registration.id)
      return .finished

/-- A heartbeat of a registration. -/
def heartbeat (registration : ℕ) : Call urls Settled := do
  let active ← ask .active
  let aborted ← ask (.aborted registration)
  match active with
  | none => return .finished
  | some active =>
      if active.id ≠ registration ∨ aborted then return .finished
      else
        tryCatch (renew active) (fun e => do
          if retryable e then return .finished
          else
            ask (.deactivate registration)
            return .finished)

/-- The record of a registration whose call has ended is withdrawn. -/
def rollback (wire : EncodedRecord urls) (previous : Option (ActiveRegistration urls)) :
    Call urls Unit :=
  tryCatch
    (match previous with
    | some previous => restorePrevious previous
    | none => remove wire)
    (fun _ => return ())

/-- The previous registration ends. -/
def replace (previous : Option (ActiveRegistration urls)) : Call urls Unit :=
  match previous with
  | some previous => do
      ask (.abort previous.id)
      retire previous.lease
  | none => return ()

/-- Register or replace an instance. -/
def register (wire : EncodedRecord urls) : Call urls Settled := do
  let previous ← ask .active
  let lease ← admitRecord wire
  let ended ← ask .contextFailure
  if ended then
    rollback wire previous
    retire lease
    throw .other
  else
    replace previous
    ask (.activate wire lease)
    return .finished

/-- The record that is deregistered: that of the active registration, or the given one. -/
def removedRecord (active : Option (ActiveRegistration urls))
    (wire : Except RegistryError (EncodedRecord urls)) : Except Thrown (EncodedRecord urls) :=
  match active with
  | some active => .ok active.wire
  | none => wire.mapError Thrown.registry

/-- The active registration ends. -/
def dismiss (active : Option (ActiveRegistration urls)) : Call urls Unit :=
  match active with
  | some active => do
      ask (.deactivate active.id)
      retire active.lease
  | none => return ()

/-- Deregister an instance. -/
def deregister (wire : Except RegistryError (EncodedRecord urls)) : Call urls Settled := do
  let active ← ask .active
  let record ← settle (removedRecord active wire)
  remove record
  let ended ← ask .contextFailure
  if ended then throw .other
  else
    dismiss active
    return .finished

/-! ### Managers -/

/-- What an operation does. -/
inductive Kind (urls : UrlParser) where
  | register (wire : EncodedRecord urls)
  | deregister (wire : Except RegistryError (EncodedRecord urls))
  | heartbeat (registration : ℕ)

/-- The program of an operation. -/
def program : Kind urls → Call urls Settled
  | .register wire => register wire
  | .deregister wire => deregister wire
  | .heartbeat registration => heartbeat registration

/-- How far an operation has got. -/
inductive Progress (urls : UrlParser) where
  /-- It waits for its turn. -/
  | waiting
  | running (rest : Prog (Request urls) Reply (Except Thrown Settled))
  /-- It has settled. Nothing depends on how, and on the registration that was active then. -/
  | settled (outcome : Except Thrown Settled) (active : Option (ActiveRegistration urls))

def Progress.isSettled : Progress urls → Bool
  | .settled _ _ => true
  | _ => false

/-- An operation on the state of an identity. -/
structure Operation (urls : UrlParser) where
  kind : Kind urls
  /-- The state that it has captured. -/
  identity : ℕ
  /-- The operations it waits for. -/
  previous : List ℕ
  /-- The registration that was active when its turn came. Nothing depends on it. -/
  found : Option (ActiveRegistration urls)
  phase : Progress urls

/-- The state that a manager holds for the identity. -/
structure IdentityState (urls : UrlParser) where
  /-- The operations that the next one waits for. -/
  tail : List ℕ
  active : Option (ActiveRegistration urls)
  refs : ℕ

/-- A registration manager. Its operations, and the states it has created for the identity,
are numbered. -/
structure Manager (urls : UrlParser) where
  /-- The state that the manager holds for the identity. -/
  current : Option ℕ
  states : ℕ → IdentityState urls
  /-- The number of states. -/
  created : ℕ
  operations : ℕ → Operation urls
  /-- The number of operations. -/
  calls : ℕ
  /-- The states of the registrations whose heartbeats have started. -/
  loops : ℕ → Option ℕ
  /-- The registrations whose owners have been aborted. -/
  aborted : ℕ → Bool
  /-- The leases that were made the lease of an active registration. Nothing depends on it. -/
  adopted : List ℕ

namespace Manager

variable (m : Manager urls)

/-- The state of the identity, which is created if there is none. -/
def identityState : ℕ × Manager urls :=
  match m.current with
  | some identity => (identity, m)
  | none =>
      (m.created,
        { m with
          current := some m.created
          states := Function.update m.states m.created ⟨[], none, 0⟩
          created := m.created + 1 })

/-- An operation queues up on a state. -/
def acquire (identity : ℕ) (kind : Kind urls) : Manager urls :=
  let state := m.states identity
  { m with
    states := Function.update m.states identity
      { state with tail := state.tail ++ [m.calls], refs := state.refs + 1 }
    operations := Function.update m.operations m.calls
      ⟨kind, identity, state.tail, none, .waiting⟩
    calls := m.calls + 1 }

/-- Set the phase of an operation. -/
def proceed (a : ℕ) (phase : Progress urls) : Manager urls :=
  { m with operations := Function.update m.operations a { m.operations a with phase := phase } }

/-- The turn of an operation comes. -/
def start (a : ℕ) : Manager urls :=
  let o := m.operations a
  { m with
    operations := Function.update m.operations a
      { o with
        found := (m.states o.identity).active
        phase := .running (program o.kind).run } }

/-- An operation settles, and leaves its state, which is dropped when nothing needs it. -/
def release (a : ℕ) (outcome : Except Thrown Settled) : Manager urls :=
  let identity := (m.operations a).identity
  let state := m.states identity
  let m' := m.proceed a (.settled outcome state.active)
  { m' with
    states := Function.update m.states identity { state with refs := state.refs - 1 }
    current :=
      if state.active.isNone ∧ state.refs - 1 = 0 ∧ m.current = some identity then none
      else m.current }

end Manager

/-! ### What an operation works on -/

/-- What the operation that has its turn works on: etcd, and the state of the identity with
the owners of registrations. -/
structure View (urls : UrlParser) (ι : Type) where
  server : Server ι
  active : Option (ActiveRegistration urls)
  loops : ℕ → Option ℕ
  aborted : ℕ → Bool
  adopted : List ℕ

/-- A request of an operation, which works on a state of its manager, is served. A request of
etcd may not be applied. -/
inductive Serves (manager : ι) (operation identity : ℕ) :
    (applied : Bool) → (q : Request urls) → View urls ι → Reply q → View urls ι → Prop where
  | etcd {v : View urls ι} {applied : Bool} {q : EtcdRequest} {r : Except Thrown (EtcdReply q)}
      {server : Server ι} (hserves : EtcdServes manager operation applied q v.server r server) :
      Serves manager operation identity applied (.etcd q) v r { v with server := server }
  | contextFailure {v : View urls ι} (ended : Bool) :
      Serves manager operation identity true .contextFailure v ended v
  | active {v : View urls ι} : Serves manager operation identity true .active v v.active v
  | aborted {v : View urls ι} {registration : ℕ} :
      Serves manager operation identity true (.aborted registration) v
        (v.aborted registration) v
  | abort {v : View urls ι} {registration : ℕ} :
      Serves manager operation identity true (.abort registration) v ()
        { v with aborted := Function.update v.aborted registration true }
  | activate {v : View urls ι} {wire : EncodedRecord urls} {lease : ℕ} :
      Serves manager operation identity true (.activate wire lease) v ()
        { v with
          active := some ⟨operation, wire, lease⟩
          loops := Function.update v.loops operation (some identity)
          aborted := Function.update v.aborted operation false
          adopted := lease :: v.adopted }
  | deactivate {v : View urls ι} {registration : ℕ} :
      Serves manager operation identity true (.deactivate registration) v ()
        { v with
          active := none
          aborted := Function.update v.aborted registration true }
  | setLease {v : View urls ι} {registration lease : ℕ} :
      Serves manager operation identity true (.setLease registration lease) v ()
        { v with
          active := v.active.map (fun active =>
            if active.id = registration then { active with lease := lease } else active)
          adopted := lease :: v.adopted }

/-! ### Managers and etcd -/

/-- The managers and etcd. -/
structure Cluster (urls : UrlParser) (ι : Type) where
  server : Server ι
  managers : ι → Manager urls

namespace Cluster

variable (w : Cluster urls ι)

/-- What an operation on a state of a manager works on. -/
def view (manager : ι) (identity : ℕ) : View urls ι :=
  let m := w.managers manager
  ⟨w.server, (m.states identity).active, m.loops, m.aborted, m.adopted⟩

variable [DecidableEq ι]

/-- Set a manager. -/
def setManager (manager : ι) (m : Manager urls) : Cluster urls ι :=
  { w with managers := Function.update w.managers manager m }

/-- Set what an operation has worked on. -/
def setView (manager : ι) (identity : ℕ) (v : View urls ι) : Cluster urls ι :=
  let m := w.managers manager
  { server := v.server
    managers := Function.update w.managers manager
      { m with
        states := Function.update m.states identity
          { m.states identity with active := v.active }
        loops := v.loops
        aborted := v.aborted
        adopted := v.adopted } }

/-- A call queues up on the state of the identity. -/
def call (manager : ι) (kind : Kind urls) : Cluster urls ι :=
  let (identity, m) := (w.managers manager).identityState
  w.setManager manager (m.acquire identity kind)

end Cluster

/-- What happens. -/
inductive Action (ι : Type) where
  | called
  | acquired
  | served (i : ι) (a : ℕ) (applied : Bool)
  | released
  | expired (lease : ℕ)

/-- A step. -/
inductive Move [DecidableEq ι] : Action ι → Cluster urls ι → Cluster urls ι → Prop where
  | register {w : Cluster urls ι} (i : ι) (wire : EncodedRecord urls) :
      Move .called w (w.call i (.register wire))
  | deregister {w : Cluster urls ι} (i : ι) (wire : Except RegistryError (EncodedRecord urls)) :
      Move .called w (w.call i (.deregister wire))
  /-- The time of the next heartbeat of a registration has come. It queues up at once. -/
  | beat {w : Cluster urls ι} {i : ι} {registration identity : ℕ}
      (hloop : (w.managers i).loops registration = some identity)
      (haborted : (w.managers i).aborted registration = false)
      (hprevious : ∀ a < (w.managers i).calls,
        ((w.managers i).operations a).kind = .heartbeat registration →
        ((w.managers i).operations a).phase.isSettled = true) :
      Move .called w
        (w.setManager i ((w.managers i).acquire identity (.heartbeat registration)))
  /-- The operations that an operation waits for have settled. -/
  | acquired {w : Cluster urls ι} {i : ι} {a : ℕ} (hcall : a < (w.managers i).calls)
      (hwaiting : ((w.managers i).operations a).phase = .waiting)
      (hprevious : ∀ b ∈ ((w.managers i).operations a).previous,
        ((w.managers i).operations b).phase.isSettled = true) :
      Move .acquired w (w.setManager i ((w.managers i).start a))
  /-- A request of the operation that has its turn is served. -/
  | served {w : Cluster urls ι} {i : ι} {a : ℕ} {applied : Bool} {q : Request urls}
      {k : Reply q → Prog (Request urls) Reply (Except Thrown Settled)} {r : Reply q}
      {v : View urls ι} (hcall : a < (w.managers i).calls)
      (hrunning : ((w.managers i).operations a).phase = .running (.send q k))
      (hserves : Serves i a ((w.managers i).operations a).identity applied q
        (w.view i ((w.managers i).operations a).identity) r v) :
      Move (.served i a applied) w
        ((w.setManager i ((w.managers i).proceed a (.running (k r)))).setView i
          ((w.managers i).operations a).identity v)
  | released {w : Cluster urls ι} {i : ι} {a : ℕ} {outcome : Except Thrown Settled}
      (hcall : a < (w.managers i).calls)
      (hrunning : ((w.managers i).operations a).phase = .running (.ret outcome)) :
      Move .released w (w.setManager i ((w.managers i).release a outcome))
  /-- A lease expires. -/
  | expired {w : Cluster urls ι} (lease : ℕ) :
      Move (.expired lease) w { w with server := w.server.withoutLease lease }

/-- A manager without operations. -/
def newRegistrationManager : Manager urls where
  current := none
  states := fun _ => ⟨[], none, 0⟩
  created := 0
  operations := fun _ => ⟨.heartbeat 0, 0, [], none, .waiting⟩
  calls := 0
  loops := fun _ => none
  aborted := fun _ => false
  adopted := []

/-- No manager has run an operation, and the key holds no row. -/
def newWorld : Cluster urls ι := ⟨⟨none, [], 0, [], [], []⟩, fun _ => newRegistrationManager⟩

end Registry.Etcd
