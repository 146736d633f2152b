import GoLike.Lib.Interleave
import GoLike.Registry.Etcd.Codec

/-!
# The protocol of etcd registrations

A registration is a row of etcd under a lease, which a manager keeps alive. The managers of
one provider share the key of an identity, and the requests below concern this key.

A request fails without effect, or after it has been applied. The transactions of the
protocol are therefore read back.
-/

open Store Interleave

namespace Registry.Etcd

variable {urls : UrlParser} {ι : Type}

/-! ### Failures -/

/-- What a request or a stream throws. -/
inductive Thrown where
  | deadlineExceeded
  | transport
  | http (status : ℕ)
  | registry (e : RegistryError)
  | other

/-- The failure is one of availability. -/
def retryable : Thrown → Bool
  | .deadlineExceeded => true
  | .transport => true
  | .http status => status = 408 ∨ status = 425 ∨ status = 429 ∨ status ≥ 500
  | _ => false

/-! ### The key of an identity -/

/-- The row of the key. -/
structure Row (ι : Type) where
  value : JsonText
  lease : ℕ
  /-- The manager that has put the row. Nothing depends on it. -/
  publisher : ι

/-- A lease that was granted, to an operation of a manager. Nothing depends on it. -/
structure Grant (ι : Type) where
  lease : ℕ
  manager : ι
  operation : ℕ
  /-- The operation has received the lease. -/
  answered : Bool

/-- The part of etcd that concerns the key. Leases are numbered. -/
structure Server (ι : Type) where
  row : Option (Row ι)
  /-- The leases that are alive. -/
  leases : List ℕ
  /-- The number of leases. -/
  granted : ℕ
  grants : List (Grant ι)
  /-- The leases that a manager has asked to revoke. Nothing depends on it. -/
  revocations : List ℕ
  /-- The rows that a manager has removed. Nothing depends on it. -/
  removed : List (ι × Row ι)

/-- A request of etcd. -/
inductive EtcdRequest where
  | grantLease
  /-- Put a row. -/
  | publish (value : JsonText) (lease : ℕ)
  /-- Put a row if there is none. -/
  | restore (value : JsonText) (lease : ℕ)
  /-- Delete the row if it has the value. -/
  | remove (value : JsonText)
  | range
  | keepAlive (lease : ℕ)
  | revokeLease (lease : ℕ)

/-- What is replied to a request. -/
abbrev EtcdReply : EtcdRequest → Type
  | .grantLease => ℕ
  | .publish _ _ => Unit
  | .restore _ _ => Unit
  | .remove _ => Unit
  | .range => Option (JsonText × ℕ)
  | .keepAlive _ => Bool
  | .revokeLease _ => Unit

namespace Server

/-- A lease ends, and the row that it holds is deleted. -/
def withoutLease (s : Server ι) (lease : ℕ) : Server ι :=
  { s with
    leases := s.leases.filter (· ≠ lease)
    row := s.row.filter (fun row => row.lease ≠ lease) }

/-- A manager puts a row; its lease has to be alive. -/
def put (s : Server ι) (manager : ι) (value : JsonText) (lease : ℕ) : Option (Unit × Server ι) :=
  if lease ∈ s.leases then some ((), { s with row := some ⟨value, lease, manager⟩ }) else none

/-- A manager deletes the row if it has the value. -/
def delete (s : Server ι) (manager : ι) (value : JsonText) : Server ι :=
  match s.row with
  | none => s
  | some row =>
      if row.value = value then { s with row := none, removed := (manager, row) :: s.removed }
      else s

/-- Apply the request of an operation of a manager, which may receive the reply. -/
def apply (s : Server ι) (manager : ι) (operation : ℕ) (answered : Bool) :
    (q : EtcdRequest) → Option (EtcdReply q × Server ι)
  | .grantLease =>
      some (s.granted,
        { s with
          leases := s.granted :: s.leases
          granted := s.granted + 1
          grants := ⟨s.granted, manager, operation, answered⟩ :: s.grants })
  | .publish value lease => s.put manager value lease
  | .restore value lease => if s.row.isSome then some ((), s) else s.put manager value lease
  | .remove value => some ((), s.delete manager value)
  | .range => some (s.row.map (fun row => (row.value, row.lease)), s)
  | .keepAlive lease => some (decide (lease ∈ s.leases), s)
  | .revokeLease lease => some ((), s.withoutLease lease)

/-- The revocations that have been asked for with this request. -/
def note (s : Server ι) : EtcdRequest → Server ι
  | .revokeLease lease => { s with revocations := lease :: s.revocations }
  | _ => s

end Server

/-- A request of an operation is served: it is applied and answered, applied without an
answer, or not applied. -/
inductive EtcdServes (manager : ι) (operation : ℕ) :
    (applied : Bool) → (q : EtcdRequest) → Server ι → Except Thrown (EtcdReply q) → Server ι →
    Prop where
  | answered {q : EtcdRequest} {s s' : Server ι} {r : EtcdReply q}
      (happly : (s.note q).apply manager operation true q = some (r, s')) :
      EtcdServes manager operation true q s (.ok r) s'
  | lost {q : EtcdRequest} {s s' : Server ι} {r : EtcdReply q} (e : Thrown)
      (happly : (s.note q).apply manager operation false q = some (r, s')) :
      EtcdServes manager operation true q s (.error e) s'
  | failed {q : EtcdRequest} {s : Server ι} (e : Thrown) :
      EtcdServes manager operation false q s (.error e) (s.note q)

/-! ### The requests of an operation -/

/-- A registration that a manager keeps alive. It is numbered by the operation that has
registered it. -/
structure ActiveRegistration (urls : UrlParser) where
  id : ℕ
  wire : EncodedRecord urls
  lease : ℕ

/-- A request of an operation: of etcd, of the context of its call, or of the state that its
manager holds for the identity. -/
inductive Request (urls : UrlParser) where
  | etcd (q : EtcdRequest)
  /-- Whether the context of the call has ended. -/
  | contextFailure
  /-- The active registration. -/
  | active
  /-- Whether the owner of a registration has been aborted. -/
  | aborted (registration : ℕ)
  | abort (registration : ℕ)
  /-- Make a registration the active one, and start its heartbeats. -/
  | activate (wire : EncodedRecord urls) (lease : ℕ)
  /-- Abort the owner of a registration, and leave none active. -/
  | deactivate (registration : ℕ)
  /-- Set the lease of a registration. -/
  | setLease (registration : ℕ) (lease : ℕ)

/-- What an operation receives. -/
abbrev Reply : Request urls → Type
  | .etcd q => Except Thrown (EtcdReply q)
  | .contextFailure => Bool
  | .active => Option (ActiveRegistration urls)
  | .aborted _ => Bool
  | .abort _ => Unit
  | .activate _ _ => Unit
  | .deactivate _ => Unit
  | .setLease _ _ => Unit

variable (urls) in
/-- A program of the protocol. -/
abbrev Call (α : Type) : Type := Client (Request urls) Reply Thrown α

/-- Send a request. -/
def ask (q : Request urls) : Call urls (Reply q) := request q

/-- Send a request to etcd. -/
def post (q : EtcdRequest) : Call urls (EtcdReply q) := do
  let reply ← ask (.etcd q)
  settle reply

/-- Send a transaction to etcd. A failure of availability leaves its outcome uncertain. -/
def transact (q : EtcdRequest) : Call urls (Option Thrown) :=
  tryCatch
    (do
      let _ ← post q
      return none)
    (fun e => if retryable e then return some e else throw e)

def grantLease : Call urls ℕ := post .grantLease

/-- Renew a lease, and report whether it still exists. -/
def keepAlive (lease : ℕ) : Call urls Bool := post (.keepAlive lease)

def revokeLease (lease : ℕ) : Call urls Unit := post (.revokeLease lease)

/-- Read whether the key holds the record under the lease. -/
def owns (record : EncodedRecord urls) (lease : ℕ) : Call urls Bool := do
  let row ← post .range
  return row = some (record.value, lease)

/-- Publish a record, and accept an uncertain outcome only after a readback. -/
def publish (record : EncodedRecord urls) (lease : ℕ) : Call urls Unit := do
  let uncertain ← transact (.publish record.value lease)
  let found ← owns record lease
  if found then return ()
  else
    match uncertain with
    | some e => throw e
    | none =>
        throw (.registry (.protocol "etcd transaction did not establish exact ownership"))

/-- Restore a record that has expired, only while the key holds no row. -/
def restore (record : EncodedRecord urls) (lease : ℕ) : Call urls Bool := do
  let uncertain ← transact (.restore record.value lease)
  let found ← owns record lease
  if found then return true
  else
    match uncertain with
    | some e => throw e
    | none => return false

/-- Delete a record, unless the key holds another value. -/
def remove (record : EncodedRecord urls) : Call urls Unit := do
  let uncertain ← transact (.remove record.value)
  let row ← post .range
  match row with
  | none => return ()
  | some (value, _) =>
      if value ≠ record.value then return ()
      else
        match uncertain with
        | some e => throw e
        | none => throw (.registry (.protocol "etcd exact owned record remains after remove"))

end Registry.Etcd
