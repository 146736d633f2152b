import GoLike.Store.Etcd.Client

/-!
# A linearizable etcd key space

The key space serves the requests of any number of calls, each request in one step. A
request may fail without having taken effect, or after it has taken effect, and a
transaction that failed may take effect later. A lease may end at any time, which removes
the rows attached to it.

The state records, beside what etcd stores, the changes that the transactions of the calls
have made and what each call has observed. Nothing depends on these records.
-/

open Interleave

namespace Store.Etcd

/-! ### The state -/

/-- A change of the row of a key by a transaction of a call. -/
structure Change (ι : Type) where
  author : ι
  key : Key
  before : Option KeyValue
  after : Option KeyValue
  /-- The time that the call last read from its clock. -/
  clock : Option TimeValue

/-- What a call observes: the row of a key, or the time. -/
inductive Observation where
  | row (key : Key) (kv : Option KeyValue)
  | time (t : TimeValue)

/-- The time that was observed last; the last observation comes first. -/
def clockOf : List Observation → Option TimeValue
  | [] => none
  | .time t :: _ => some t
  | .row _ _ :: rest => clockOf rest

/-- The state of the key space, as seen by the calls of `ι`. -/
structure KeySpace (ι : Type) where
  rows : Key → Option KeyValue
  revision : ℕ
  leases : List ℤ
  /-- The transactions that have failed and may take effect later. -/
  inFlight : List (ι × Txn)
  changes : List (Change ι)
  observed : ι → List Observation

namespace KeySpace

variable {ι : Type}

/-- The condition holds. -/
def holds (s : KeySpace ι) : Compare → Bool
  | .versionZero key => (s.rows key).isNone
  | .mod key modRevision =>
      revisionText (((s.rows key).map KeyValue.modRevision).getD 0) = modRevision

/-- The response to a range request. -/
def range (s : KeySpace ι) (key : Key) : RangeResponse := ⟨s.revision, (s.rows key).toList⟩

/-- The mutation attaches a row to a lease that does not exist. -/
def missesLease (s : KeySpace ι) : Mutation → Bool
  | .put _ _ lease => lease ≠ PersistentLease ∧ lease ∉ s.leases
  | .deleteRange _ => false

/-- The row of a key at the next revision. -/
def change [DecidableEq ι] (s : KeySpace ι) (i : ι) (key : Key) (after : Option KeyValue) :
    KeySpace ι :=
  { s with
    rows := Function.update s.rows key after
    revision := s.revision + 1
    changes := ⟨i, key, s.rows key, after, clockOf (s.observed i)⟩ :: s.changes }

variable [DecidableEq ι]

/-- The response to a mutation, and the state after it. -/
def mutate (s : KeySpace ι) (i : ι) : Mutation → OpResponse × KeySpace ι
  | .put key value lease =>
      (.put (s.revision + 1) (s.rows key),
        s.change i key (some ⟨key.val, s.revision + 1, lease, value⟩))
  | .deleteRange key =>
      match s.rows key with
      | none => (.deleteRange s.revision 0 [], s)
      | some kv => (.deleteRange (s.revision + 1) 1 [kv], s.change i key none)

/-- The response to a transaction, and the state after it. -/
def execute (s : KeySpace ι) (i : ι) (operation : Operation) (x : Txn) :
    Except EtcdError TxnResponse × KeySpace ι :=
  if s.holds x.compare then
    if s.missesLease x.success then (.error (.http operation 404 (some 5)), s)
    else
      let result := s.mutate i x.success
      (.ok ⟨result.2.revision, true, [result.1]⟩, result.2)
  else (.ok ⟨s.revision, false, [.range (s.range x.failure)]⟩, s)

omit [DecidableEq ι] in
/-- The state without a lease and its rows; their removal may take a revision. -/
def withoutLease (s : KeySpace ι) (lease : ℤ) (removed : Bool) : KeySpace ι :=
  { s with
    rows := fun key => (s.rows key).filter (fun kv => kv.lease ≠ lease)
    revision := if removed then s.revision + 1 else s.revision
    leases := s.leases.filter (· ≠ lease) }

/-- A call makes an observation. -/
def observe (s : KeySpace ι) (i : ι) (o : Observation) : KeySpace ι :=
  { s with observed := Function.update s.observed i (o :: s.observed i) }

/-- A call receives the response to a request, which reports the row of a key when a range
was read or when the condition of a transaction failed. -/
def note (s : KeySpace ι) (i : ι) : (p : Post) → Except EtcdError (Response p) → KeySpace ι
  | .range _ key, _ => s.observe i (.row key (s.rows key))
  | .txn _ x, .ok response =>
      if response.succeeded then s else s.observe i (.row x.failure (s.rows x.failure))
  | _, _ => s

end KeySpace

/-! ### The service -/

section

variable {ι : Type} [DecidableEq ι]

/-- A request to the gateway takes effect. -/
inductive Applies (i : ι) :
    (p : Post) → KeySpace ι → Except EtcdError (Response p) → KeySpace ι → Prop where
  | range {s operation key} : Applies i (.range operation key) s (.ok (s.range key)) s
  | txn {s operation x} :
      Applies i (.txn operation x) s (s.execute i operation x).1 (s.execute i operation x).2
  | leaseGrant {s : KeySpace ι} {ttl : ℕ} {id : ℤ} (hid : id ≠ 0) (hfresh : id ∉ s.leases) :
      Applies i (.leaseGrant ttl) s (.ok ⟨id, ttl⟩) { s with leases := id :: s.leases }
  | leaseRevoke {s : KeySpace ι} {id : ℤ} (hid : id ∈ s.leases) (removed : Bool) :
      Applies i (.leaseRevoke id) s (.ok (s.withoutLease id removed).revision)
        (s.withoutLease id removed)
  | leaseMissing {s : KeySpace ι} {id : ℤ} (hid : id ∉ s.leases) :
      Applies i (.leaseRevoke id) s (.error (.http .leaseRevoke 404 (some 5))) s

/-- How a request to the gateway can fail. -/
inductive GatewayFailure : EtcdError → Prop where
  | http (operation status grpcCode) : GatewayFailure (.http operation status grpcCode)
  | transport (operation) : GatewayFailure (.transport operation)
  | protocol (operation) : GatewayFailure (.protocol operation)
  | canceled (f) : GatewayFailure (.store (.failure f))

/-- A request is served whose response is delivered. The clock of a call does not go
back, and its marker is its own. -/
inductive Delivers (marker : ι ↪ Key) (i : ι) :
    (q : Request) → KeySpace ι → Reply q → KeySpace ι → Prop where
  | now {s : KeySpace ι} {t : TimeValue} (ht : ∀ t', clockOf (s.observed i) = some t' → t' ≤ t) :
      Delivers marker i .now s t (s.observe i (.time t))
  | randomUUID {s : KeySpace ι} : Delivers marker i .randomUUID s (marker i) s
  | post {p s r s'} (h : Applies i p s r s') : Delivers marker i (.post p) s r (s'.note i p r)

/-- A request is served, or fails. -/
inductive Serves (marker : ι ↪ Key) (i : ι) :
    (q : Request) → KeySpace ι → Reply q → KeySpace ι → Prop where
  | delivered {q s r s'} (h : Delivers marker i q s r s') : Serves marker i q s r s'
  /-- The request does not take effect. -/
  | failed {p : Post} {s : KeySpace ι} {f : EtcdError} (hf : GatewayFailure f) :
      Serves marker i (.post p) s (.error f) s
  /-- The request has taken effect. -/
  | lost {p : Post} {s : KeySpace ι} {r s'} {f : EtcdError} (hf : GatewayFailure f)
      (h : Applies i p s r s') : Serves marker i (.post p) s (.error f) s'
  /-- The transaction may take effect later. -/
  | late {operation : Operation} {x : Txn} {s : KeySpace ι} {f : EtcdError}
      (hf : GatewayFailure f) :
      Serves marker i (.post (.txn operation x)) s (.error f)
        { s with inFlight := (i, x) :: s.inFlight }

/-- What happens in the key space without a request. -/
inductive Moves : KeySpace ι → KeySpace ι → Prop where
  /-- A transaction that has failed takes effect. -/
  | late {s : KeySpace ι} {i : ι} {x : Txn} {l₁ l₂ : List (ι × Txn)} (operation : Operation)
      (hflight : s.inFlight = l₁ ++ (i, x) :: l₂) :
      Moves s { (s.execute i operation x).2 with inFlight := l₁ ++ l₂ }
  /-- A lease ends. -/
  | leaseEnds {s : KeySpace ι} (lease : ℤ) (removed : Bool) : Moves s (s.withoutLease lease removed)

/-- The key space as a service. -/
def keySpace (marker : ι ↪ Key) : Service ι Request Reply (KeySpace ι) where
  serves := Serves marker
  moves := Moves

end

end Store.Etcd
