import GoLike.Lib.Interleave
import GoLike.Store.Etcd.Codec

/-!
# Requests to the etcd gateway

The requests the etcd Store sends, what the gateway responds with, and the checks that the
responses must pass. The clock and the source of operation markers of the process are read
by requests as well.
-/

open Interleave

namespace Store.Etcd

/-! ### Requests and responses -/

/-- The condition of a transaction. -/
inductive Compare where
  /-- The version of the key equals zero: the key has no row. -/
  | versionZero (key : Key)
  /-- The modification revision of the key equals a revision. -/
  | mod (key : Key) (modRevision : Key)

/-- The mutation of a transaction whose condition holds. -/
inductive Mutation where
  | put (key : Key) (value : JsonText) (lease : ℤ)
  | deleteRange (key : Key)

/-- A transaction. When its condition fails it reads the row of a key. -/
structure Txn where
  compare : Compare
  success : Mutation
  failure : Key

/-- A request to the gateway. -/
inductive Post where
  | range (operation : Operation) (key : Key)
  | txn (operation : Operation) (transaction : Txn)
  | leaseGrant (ttl : ℕ)
  | leaseRevoke (id : ℤ)

/-- The response to a range request. -/
structure RangeResponse where
  revision : ℕ
  kvs : List KeyValue

/-- The response to one operation of a transaction. -/
inductive OpResponse where
  | put (revision : ℕ) (previous : Option KeyValue)
  | deleteRange (revision deleted : ℕ) (previous : List KeyValue)
  | range (response : RangeResponse)

/-- The response to a transaction. -/
structure TxnResponse where
  revision : ℕ
  succeeded : Bool
  responses : List OpResponse

/-- The response to the grant of a lease. -/
structure LeaseGrantResponse where
  id : ℤ
  ttl : ℤ

/-- The response to a request to the gateway. -/
abbrev Response : Post → Type
  | .range _ _ => RangeResponse
  | .txn _ _ => TxnResponse
  | .leaseGrant _ => LeaseGrantResponse
  | .leaseRevoke _ => ℕ

/-- A request of the etcd Store. -/
inductive Request where
  | now
  | randomUUID
  | post (p : Post)

/-- The reply to a request. -/
abbrev Reply : Request → Type
  | .now => TimeValue
  | .randomUUID => Key
  | .post p => Except EtcdError (Response p)

/-- A program of the etcd Store. -/
abbrev EtcdM : Type → Type := Client Request Reply EtcdError

/-- A validation that does not involve the gateway. -/
def validate {α : Type} (v : Except StoreError α) : EtcdM α := settle (v.mapError .store)

/-- Send a request to the gateway. -/
def post (p : Post) : EtcdM (Response p) := do
  let response ← request (.post p)
  settle response

/-- The value of a response, unless it violates the protocol. -/
def orProtocolError {α : Type} (operation : Operation) (value : Option α) :
    Except EtcdError α :=
  match value with
  | some a => .ok a
  | none => .error (.protocol operation)

/-! ### Reading -/

/-- The row of a key and the revision of the cluster. -/
structure ExactRange where
  revision : ℕ
  row : Option EtcdRow

/-- The row of the key in a response; `none` stands for a violation of the protocol. -/
def exactRangeResponse (response : RangeResponse) (key : Key) : Option ExactRange :=
  match response.kvs with
  | [] => some ⟨response.revision, none⟩
  | [kv] => do
      let row ← decodeRow kv
      guard (row.record.key = key)
      some ⟨response.revision, some row⟩
  | _ => none

/-- Read the row of a key. -/
def rangeExact (operation : Operation) (key : Key) : EtcdM ExactRange := do
  let response ← post (.range operation key)
  settle (orProtocolError operation (exactRangeResponse response key))

/-! ### Leases -/

/-- Grant a lease. -/
def grantLease (ttlSeconds : ℕ) : EtcdM ℤ := do
  let response ← post (.leaseGrant ttlSeconds)
  settle (orProtocolError .leaseGrant
    (if response.id ≠ 0 ∧ response.ttl > 0 then some response.id else none))

/-- Revoke a lease. -/
def revokeLease (lease : ℤ) : EtcdM Unit := do
  let _ ← post (.leaseRevoke lease)

/-! ### Transactions -/

/-- The outcome of a transaction that puts or deletes a row. -/
structure TransactionOutcome where
  succeeded : Bool
  revision : ℕ
  current : Option EtcdRow

/-- The rows are the same physical generation. -/
def sameRow (left right : Option EtcdRow) : Bool :=
  match left, right with
  | none, none => true
  | some left, some right =>
      left.record.key = right.record.key ∧ left.record.revision = right.record.revision ∧
        left.payload = right.payload ∧ left.lease = right.lease
  | _, _ => false

/-- The row that a failed transaction met; `none` stands for a violation of the protocol. -/
def failedTransaction (response : TxnResponse) (operation : OpResponse) (key : Key) :
    Option TransactionOutcome :=
  match operation with
  | .range range => do
      guard (range.revision = response.revision)
      let current ← exactRangeResponse range key
      some ⟨false, response.revision, current.row⟩
  | _ => none

/-- The row of a previous key and value, if there is one; `none` stands for a violation of
the protocol. -/
def decodePrevious (previous : Option KeyValue) : Option (Option EtcdRow) :=
  match previous with
  | none => some none
  | some kv => (decodeRow kv).map some

/-- The outcome of the response to a put; `none` stands for a violation of the protocol. -/
def putOutcome (response : TxnResponse) (key : Key) (expected : Option EtcdRow) :
    Option TransactionOutcome :=
  match response.succeeded, response.responses with
  | true, [.put revision previousValue] => do
      guard (response.revision ≠ 0 ∧ revision = response.revision)
      let previous ← decodePrevious previousValue
      guard (sameRow previous expected)
      some ⟨true, response.revision, previous⟩
  | false, [operation] => failedTransaction response operation key
  | _, _ => none

/-- The condition that the row of a key is an expected one. -/
def expectedRow (key : Key) (expected : Option EtcdRow) : Compare :=
  match expected with
  | none => .versionZero key
  | some row => .mod key row.record.revision

/-- Put a payload under a key whose row is an expected one. -/
def transactPut (key : Key) (payload : JsonText) (lease : ℤ) (expected : Option EtcdRow) :
    EtcdM TransactionOutcome := do
  let response ← post (.txn .write ⟨expectedRow key expected, .put key payload lease, key⟩)
  settle (orProtocolError .write (putOutcome response key expected))

/-- The outcome of the response to a delete; `none` stands for a violation of the
protocol. -/
def deleteOutcome (response : TxnResponse) (key : Key) (expected : EtcdRow) :
    Option TransactionOutcome :=
  match response.succeeded, response.responses with
  | true, [.deleteRange revision deleted [previousValue]] => do
      guard (response.revision ≠ 0 ∧ revision = response.revision ∧ deleted = 1)
      let previous ← decodeRow previousValue
      guard (sameRow (some previous) (some expected))
      some ⟨true, response.revision, some previous⟩
  | false, [operation] => failedTransaction response operation key
  | _, _ => none

/-- Delete the row of a key if it is an expected one. -/
def transactDelete (key : Key) (expected : EtcdRow) : EtcdM TransactionOutcome := do
  let response ← post
    (.txn .delete ⟨.mod key expected.record.revision, .deleteRange key, key⟩)
  settle (orProtocolError .delete (deleteOutcome response key expected))

end Store.Etcd
