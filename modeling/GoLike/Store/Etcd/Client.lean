import GoLike.Store.Etcd.Gateway
import GoLike.Store.Table

/-!
# The operations of the etcd Store

An operation reads the row of its key, decides on it, and mutates it by a transaction whose
condition is that the row is still the one that was read. When the outcome of a transaction
is uncertain, the row is read back.

A write and a delete repeat their transaction when they meet another row and no condition
of the caller forbids it. The number of rounds that are represented is a parameter: a call
that needs more of them is unfinished.
-/

open Interleave

namespace Store.Etcd

def MinimumTtlMs : ℕ := 1000

def MaximumTtlMs : ℕ := 2147483647

/-! ### Rows and the clock -/

/-- The time of the clock of the process. -/
def dateNow : EtcdM TimeValue := request Request.now

/-- A marker for a write. -/
def operationId : EtcdM Key := request Request.randomUUID

/-- The row is no longer visible. -/
def expired (row : EtcdRow) : EtcdM Bool :=
  match row.record.expiresAt with
  | none => return false
  | some _ => do
      let now ← dateNow
      return Store.expired now.timestamp row.record

/-- The rows are the same physical generation. -/
def sameGeneration (left right : EtcdRow) : Bool := sameRow (some left) (some right)

/-- The revision of a row that is visible. -/
def visibleRevision (row : Option EtcdRow) : EtcdM (Option Key) :=
  match row with
  | none => return none
  | some row => do
      if ← expired row then return none
      return some row.record.revision

/-- Throw the conflict of a caller that expected one revision and met a row. -/
def throwConflict {α : Type} (key : Key) (expectedRevision : Option Key)
    (actual : Option EtcdRow) : EtcdM α := do
  let actualRevision ← visibleRevision actual
  throw (.store (newStoreConflictError key expectedRevision actualRevision))

/-! ### Leases -/

/-- Revoke a lease, which need not exist any more. -/
def releaseLease (lease : ℤ) : EtcdM Unit := do
  if lease = PersistentLease then return ()
  tryCatch (revokeLease lease) (fun value =>
    if isMissingLease value then return () else throw value)

/-- Revoke the new lease of a write that is rejected. -/
def rejectAfterLeaseCleanup {α : Type} (lease : ℤ) (primary : EtcdError) : EtcdM α := do
  tryCatch (releaseLease lease) (fun cleanup =>
    throw (.aggregate [primary, cleanup] "etcd Store write and lease cleanup failed"))
  throw primary

/-- Revoke the lease of a row that a mutation has replaced or deleted. -/
def cleanupCommittedLease (operation : Operation) (lease replacementLease : ℤ) : EtcdM Unit := do
  if lease = PersistentLease ∨ lease = replacementLease then return ()
  tryCatch (releaseLease lease) (fun value => throw (.cleanup operation value))

/-- The lease of a row, if there is one. -/
def leaseOf (row : Option EtcdRow) : ℤ := (row.map EtcdRow.lease).getD PersistentLease

/-! ### Attempts -/

/-- The outcome of an attempt to put a row. -/
structure Attempt where
  committed : Bool
  revision : Key
  current : Option EtcdRow

/-- Revoke the new lease of a put whose outcome stays uncertain. -/
def rejectUncertainPut {α : Type} (lease : ℤ) (value : EtcdError) : EtcdM α := do
  tryCatch (releaseLease lease) (fun cleanup =>
    throw (.uncertain .write (.aggregate [value, cleanup]
      "etcd Store write outcome and lease cleanup were uncertain")))
  throw (.uncertain .write value)

/-- The outcome of a put whose response was uncertain, by what is read back. -/
def putReadback (key : Key) (payload : JsonText) (lease : ℤ) (current : Option EtcdRow)
    (value : EtcdError) : EtcdM Attempt := do
  let row ← tryCatch (do return (← rangeExact .writeReadback key).row)
    (fun _ => throw (.uncertain .write value))
  if matchesWrite row payload lease then
    match row with
    | none => throw (.protocol .writeReadback)
    | some row => return ⟨true, row.record.revision, current⟩
  else rejectUncertainPut lease value

/-- One attempt to put a row over an expected one. -/
def putAttempt (key : Key) (payload : JsonText) (lease : ℤ) (current : Option EtcdRow) :
    EtcdM Attempt :=
  tryCatch
    (do
      let result ← transactPut key payload lease current
      return ⟨result.succeeded, revisionText result.revision,
        if result.succeeded then current else result.current⟩)
    (fun value =>
      if lease ≠ PersistentLease ∧ isMissingLease value then throw .leaseLost
      else if ¬ isUncertainFailure value then throw value
      else putReadback key payload lease current value)

/-- The outcome of a delete whose response was uncertain, by what is read back. -/
def deleteReadback (key : Key) (current : EtcdRow) (value : EtcdError) :
    EtcdM (Option EtcdRow) := do
  let row ← tryCatch (do return (← rangeExact .deleteReadback key).row)
    (fun _ => throw (.uncertain .delete value))
  match row with
  | none => return none
  | some row =>
      if sameGeneration row current then return some row
      throw (.uncertain .delete value)

/-- One attempt to delete a row. It yields no row when the row is taken to be deleted, and
else the row that was met. -/
def deleteAttempt (key : Key) (current : EtcdRow) : EtcdM (Option EtcdRow) :=
  tryCatch
    (do
      let result ← transactDelete key current
      return if result.succeeded then none else result.current)
    (fun value =>
      if ¬ isUncertainFailure value then throw value else deleteReadback key current value)

/-! ### Operations -/

/-- Read the visible record of a key. -/
def read (ctx : Context) (rawKey : JsString) : EtcdM (Option StoreRecord) := do
  validate (checkContext ctx)
  let key ← validate (storeKey rawKey)
  let range ← rangeExact .read key
  match range.row with
  | none => return none
  | some row =>
      if ← expired row then return none
      return some row.record

/-- Check the lifetime of a write. -/
def checkTTL (expiresInMs : Option PositiveInteger) : Except StoreError Unit :=
  match expiresInMs with
  | none => .ok ()
  | some duration =>
      if duration.val < MinimumTtlMs ∨ duration.val > MaximumTtlMs then
        .error (.rangeError "etcd Store ttl must be between 1000 and 2147483647 milliseconds")
      else .ok ()

/-- The record that was written. -/
def writtenRecord (input : StoreRecordInputSnapshot) (revision : Key) (expiresAt : Option ℕ) :
    Except StoreError StoreRecord :=
  snapshotStoreRecord
    { key := input.key.val
      value := input.value
      metadata := input.metadata.toObject
      revision := revision.val
      expiresAt := expiresAt.map JsNumber.ofNat }

/-- What the rounds of a write share. -/
structure Writing where
  config : WriteOptions
  input : StoreRecordInputSnapshot
  key : Key
  payload : JsonText
  lease : ℤ
  expiresAt : Option ℕ

/-- Revoke the new lease of a write whose attempt threw, unless the outcome is uncertain or
the lease was lost. -/
def rejectAttempt {α : Type} (lease : ℤ) (value : EtcdError) : EtcdM α :=
  match value with
  | .uncertain _ _ | .leaseLost => throw value
  | _ =>
      if lease ≠ PersistentLease ∧ ¬ isUncertainFailure value then
        rejectAfterLeaseCleanup lease value
      else throw value

/-- The rounds of a write, from the row that is expected. -/
def writeRounds (w : Writing) : ℕ → Option EtcdRow → EtcdM StoreRecord
  | 0, _ => unfinished
  | rounds + 1, current => do
      let attempt ← tryCatch (putAttempt w.key w.payload w.lease current) (rejectAttempt w.lease)
      if attempt.committed then
        cleanupCommittedLease .write (leaseOf attempt.current) w.lease
        validate (writtenRecord w.input attempt.revision w.expiresAt)
      else if w.config.ifAbsent ∨ w.config.ifRevision.isSome then
        let actual ← visibleRevision attempt.current
        rejectAfterLeaseCleanup w.lease (.store (newStoreConflictError w.key
          (if w.config.ifAbsent then none else w.config.ifRevision) actual))
      else writeRounds w rounds attempt.current

/-- The time of expiry of a write, and its lease. -/
def writeExpiry (expiresInMs : Option PositiveInteger) : EtcdM (Option ℕ) :=
  match expiresInMs with
  | none => return none
  | some duration => do
      let now ← dateNow
      return some (now.val + duration.val)

/-- The lease of a write. -/
def writeLease (expiresInMs : Option PositiveInteger) : EtcdM ℤ :=
  match expiresInMs with
  | none => return PersistentLease
  | some duration => grantLease ((duration.val + 999) / 1000)

/-- Check that a write that is to create a record met no visible one. -/
def checkAbsent (key : Key) (config : WriteOptions) (current : Option EtcdRow) : EtcdM Unit := do
  if config.ifAbsent then
    if (← visibleRevision current).isSome then throwConflict key none current

/-- Check that a write that is to replace a revision met it. -/
def checkRevision (key : Key) (config : WriteOptions) (current : Option EtcdRow) :
    EtcdM Unit := do
  if config.ifRevision.isSome then
    if (← visibleRevision current) ≠ config.ifRevision then
      throwConflict key config.ifRevision current

section

variable (textBytes : Json → ℕ)

/-- Create or replace the record of a key. -/
def write (rounds : ℕ) (ctx : Context) (rawRecord : StoreRecordInput)
    (reducers : List WriteOption) : EtcdM StoreRecord := do
  let config ← validate (writeOptions reducers)
  validate (checkTTL config.expiresInMs)
  let input ← validate (snapshotStoreRecordInput rawRecord)
  let key ← validate (storeKey input.key.val)
  validate (checkContext ctx)
  let range ← rangeExact .write key
  checkAbsent key config range.row
  checkRevision key config range.row
  let expiresAt ← writeExpiry config.expiresInMs
  let marker ← operationId
  let payload ← validate (encodeRecordPayload textBytes input marker expiresAt)
  let lease ← writeLease config.expiresInMs
  writeRounds ⟨config, input, key, payload, lease, expiresAt⟩ rounds range.row

end

/-- The rounds of a delete, from the row that is expected. -/
def deleteRounds (key : Key) (config : DeleteOptions) (initiallyVisible : Bool) :
    ℕ → EtcdRow → EtcdM Bool
  | 0, _ => unfinished
  | rounds + 1, current => do
      match ← deleteAttempt key current with
      | none =>
          cleanupCommittedLease .delete current.lease PersistentLease
          if config.ifRevision.isSome ∧ ¬ initiallyVisible then
            throw (.store (newStoreConflictError key config.ifRevision none))
          return initiallyVisible
      | some observed =>
          if sameGeneration observed current then
            deleteRounds key config initiallyVisible rounds current
          else if config.ifRevision.isSome then throwConflict key config.ifRevision (some observed)
          else if ¬ initiallyVisible then return false
          else deleteRounds key config initiallyVisible rounds observed

/-- Check that a delete of a revision met it. -/
def checkDeleted (key : Key) (config : DeleteOptions) (current : EtcdRow)
    (initiallyVisible : Bool) : EtcdM Unit := do
  if config.ifRevision.isSome then
    if (← visibleRevision (some current)) ≠ config.ifRevision ∧ initiallyVisible then
      throw (.store (newStoreConflictError key config.ifRevision (some current.record.revision)))

/-- Delete the record of a key, and report whether there was a visible one. -/
def delete (rounds : ℕ) (ctx : Context) (rawKey : JsString) (reducers : List DeleteOption) :
    EtcdM Bool := do
  let config ← validate (deleteOptions reducers)
  let key ← validate (storeKey rawKey)
  validate (checkContext ctx)
  let range ← rangeExact .delete key
  match range.row with
  | none =>
      if config.ifRevision.isSome then
        throw (.store (newStoreConflictError key config.ifRevision none))
      return false
  | some current =>
      let initiallyVisible := !(← expired current)
      checkDeleted key config current initiallyVisible
      deleteRounds key config initiallyVisible rounds current

/-! ### Calls -/

/-- A call of an operation, with its arguments. -/
inductive Call where
  | read (key : JsString)
  | write (record : StoreRecordInput) (options : List WriteOption)
  | delete (key : JsString) (options : List DeleteOption)

/-- A call, with its context when it is made, and the number of its rounds that are
represented. -/
structure Invocation where
  ctx : Context
  call : Call
  rounds : ℕ

/-- The value an operation returns. -/
inductive Value where
  | found (record : Option StoreRecord)
  | written (record : StoreRecord)
  | deleted (removed : Bool)

/-- The program of a call. -/
def perform (textBytes : Json → ℕ) (v : Invocation) : EtcdM Value :=
  match v.call with
  | .read key => return .found (← read v.ctx key)
  | .write record options => return .written (← write textBytes v.rounds v.ctx record options)
  | .delete key options => return .deleted (← delete v.rounds v.ctx key options)

end Store.Etcd
