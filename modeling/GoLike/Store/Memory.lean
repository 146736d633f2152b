import GoLike.Store.Computation
import GoLike.Store.Table

/-!
# The Memory Store

The process-local provider. Its state is a map from keys to records and the mutation
generation, from which the revisions of records and of cursors are taken. Expired records
are removed lazily, by the first operation that reads the clock after their expiry.
-/

namespace Store.Memory

def CursorVersion : ℕ := 1

def MaximumRevision : ℕ := JsNumber.MaxSafeInteger

def MaximumTTLMilliseconds : ℕ := 2147483647

/-- The state of a Memory Store. -/
structure MemoryState where
  records : Records
  revision : ℕ

/-- What a call of the clock results in. -/
inductive ClockReading where
  | throws (f : Failure)
  | returns (value : JsNumber)

/-- A computation of a Memory Store. -/
abbrev MemoryM : Type → Type := StoreM MemoryState

/-! ### Validation -/

/-- Validate a key. -/
def storeKey (value : JsString) : Except StoreError Key := do
  let input ← snapshotStoreRecordInput ⟨value, [], none⟩
  .ok input.key

/-- Read the clock. -/
def timestamp (reading : ClockReading) : Except StoreError Timestamp :=
  match reading with
  | .throws f => .error (.failure f)
  | .returns value =>
      match h : value.toSafeNat? with
      | none =>
          .error (.rangeError "Memory Store clock must return a non-negative safe integer")
      | some now => .ok ⟨now, JsNumber.le_of_toSafeNat? h⟩

/-- The time of expiry of a record written at `now`. -/
def expiry (now : Timestamp) (durationMs : Option PositiveInteger) :
    Except StoreError (Option Timestamp) :=
  match durationMs with
  | none => .ok none
  | some duration =>
      if duration.val > MaximumTTLMilliseconds then
        .error (.rangeError "Memory Store ttl is outside provider bounds")
      else if h : now.val + duration.val ≤ JsNumber.MaxSafeInteger then
        .ok (some ⟨now.val + duration.val, h⟩)
      else .error (.rangeError "Memory Store expiry exceeds safe timestamp bounds")

/-! ### Cursors -/

/-- A decoded cursor. -/
structure DecodedCursor where
  revision : ℕ
  keyPrefix : JsString
  offset : ℕ
  deriving DecidableEq

/-- The cursor of an offset into a listing at a revision. -/
def encodeCursor (revision : ℕ) (keyPrefix : JsString) (offset : ℕ) : JsonText :=
  Json.stringify (.array
    [.number (.ofNat CursorVersion), .number (.ofNat revision), .string keyPrefix,
      .number (.ofNat offset)])

/-- The cursor that a document stands for. -/
def cursorOfDocument : Json → Option DecodedCursor
  | .array [.number version, .number revision, .string keyPrefix, .number offset] =>
      if version = .ofNat CursorVersion then do
        let revision ← revision.toSafeNat?
        let offset ← offset.toSafeNat?
        some ⟨revision, keyPrefix, offset⟩
      else none
  | _ => none

/-- The error of a cursor that is invalid or stale. -/
def cursorError : StoreError := .typeError "Memory Store cursor is invalid or stale"

/-- Decode a cursor. -/
def decodeCursor (value : JsonText) : Except StoreError DecodedCursor :=
  match value.document.bind cursorOfDocument with
  | none => .error cursorError
  | some decoded => .ok decoded

/-! ### Construction -/

/-- Validate the initial generation. -/
def initialRevision (value : JsNumber) : Except StoreError ℕ :=
  match value.toSafeNat? with
  | none => .error (.rangeError "Memory Store initial revision is invalid")
  | some revision => .ok revision

/-- A store without records, at an initial generation. -/
def newMemoryStoreAtRevision (seededRevision : JsNumber) : Except StoreError MemoryState := do
  let revision ← initialRevision seededRevision
  .ok ⟨∅, revision⟩

/-- A store without records. -/
def newMemoryStore : Except StoreError MemoryState := newMemoryStoreAtRevision (.ofNat 0)

/-! ### Operations -/

/-- The next generation. -/
def MemoryState.nextRevision (s : MemoryState) : Except StoreError ℕ :=
  if s.revision ≥ MaximumRevision then
    .error (.rangeError "Memory Store revision is exhausted")
  else .ok (s.revision + 1)

/-- The record of a key, unless the key is listed as expired. -/
def MemoryState.current (s : MemoryState) (expired : List Key) (key : Key) :
    Option StoreRecord :=
  if expired.contains key then none else s.records.lookup key

/-- Remove the expired records, taking a generation for their removal. -/
def purgeExpired (expired : List Key) : MemoryM Unit := do
  if expired = [] then return ()
  let s ← get
  let candidateRevision ← check s.nextRevision
  set ({ records := removeAll s.records expired, revision := candidateRevision } : MemoryState)

/-- Read the record of a key. -/
def read (ctx : Context) (clock : ClockReading) (key : JsString) :
    MemoryM (Option StoreRecord) := do
  check (checkContext ctx)
  let selectedKey ← check (storeKey key)
  let now ← check (timestamp clock)
  let s ← get
  purgeExpired (expiredKeys s.records now)
  let s ← get
  match s.records.lookup selectedKey with
  | none => return none
  | some record => return some (← check (snapshotStoreRecord record.toCandidate))

/-- Create or replace the record of a key. -/
def write (ctx : Context) (clock : ClockReading) (value : StoreRecordInput)
    (options : List WriteOption) : MemoryM StoreRecord := do
  check (checkContext ctx)
  let input ← check (snapshotStoreRecordInput value)
  let resolved ← check (writeOptions options)
  let now ← check (timestamp clock)
  let expiresAt ← check (expiry now resolved.expiresInMs)
  let s ← get
  let expired := expiredKeys s.records now
  let current := s.current expired input.key
  check (checkWrite input.key resolved current)
  let candidateRevision ← check s.nextRevision
  let record ← check (snapshotStoreRecord
    { key := input.key.val
      value := input.value
      metadata := input.metadata.toObject
      revision := JsString.ofNat candidateRevision
      expiresAt := expiresAt.map (fun n => JsNumber.ofNat n.val) })
  set ({ records := (removeAll s.records expired).insert input.key record
         revision := candidateRevision } : MemoryState)
  check (snapshotStoreRecord record.toCandidate)

/-- Delete the record of a key, and report whether there was a visible one. -/
def delete (ctx : Context) (clock : ClockReading) (key : JsString)
    (options : List DeleteOption) : MemoryM Bool := do
  check (checkContext ctx)
  let selectedKey ← check (storeKey key)
  let resolved ← check (deleteOptions options)
  let now ← check (timestamp clock)
  let s ← get
  let expired := expiredKeys s.records now
  let current := s.current expired selectedKey
  check (checkDelete selectedKey resolved current)
  match current with
  | none =>
      purgeExpired expired
      return false
  | some _ =>
      let candidateRevision ← check s.nextRevision
      set ({ records := (removeAll s.records expired).erase selectedKey
             revision := candidateRevision } : MemoryState)
      return true

/-- The position a listing is resumed at. -/
def startOf (decoded : Option DecodedCursor) : ℕ := (decoded.map DecodedCursor.offset).getD 0

/-- The number of records of a page, of the `remaining` ones. -/
def pageCount (limit : Option PositiveInteger) (remaining : ℕ) : ℕ :=
  match limit with
  | none => remaining
  | some limit => min limit.val remaining

/-- The page of a listing that starts at an offset. -/
def MemoryState.pageOf (s : MemoryState) (resolved : ListOptions) (offset : ℕ) : StorePage :=
  let listing := matching s.records resolved.keyPrefix.val
  pageFrom listing offset (pageCount resolved.limit (listing.length - offset))
    (encodeCursor s.revision resolved.keyPrefix.val)

/-- List a page of the records whose keys begin with a text. -/
def list (ctx : Context) (clock : ClockReading) (options : List ListOption) :
    MemoryM StorePage := do
  check (checkContext ctx)
  let resolved ← check (listOptions options)
  let decoded ← check (nullable decodeCursor resolved.cursor)
  let now ← check (timestamp clock)
  let s ← get
  purgeExpired (expiredKeys s.records now)
  let s ← get
  if decoded.any (fun cursor =>
      cursor.revision ≠ s.revision ∨ cursor.keyPrefix ≠ resolved.keyPrefix.val) then
    throw cursorError
  let offset := startOf decoded
  if offset > (matching s.records resolved.keyPrefix.val).length then throw cursorError
  check (snapshotStorePage (s.pageOf resolved offset))

/-! ### Calls -/

/-- A call of an operation, with its arguments. -/
inductive Call where
  | read (key : JsString)
  | write (value : StoreRecordInput) (options : List WriteOption)
  | delete (key : JsString) (options : List DeleteOption)
  | list (options : List ListOption)

/-- A call, with its context and what the clock returns during it. -/
structure Request where
  ctx : Context
  clock : ClockReading
  call : Call

/-- The value an operation returns. -/
inductive Reply where
  | found (record : Option StoreRecord)
  | written (record : StoreRecord)
  | deleted (removed : Bool)
  | page (page : StorePage)

/-- Perform a call. -/
def serve (q : Request) : MemoryM Reply :=
  match q.call with
  | .read key => .found <$> read q.ctx q.clock key
  | .write value options => .written <$> write q.ctx q.clock value options
  | .delete key options => .deleted <$> delete q.ctx q.clock key options
  | .list options => .page <$> list q.ctx q.clock options

/-- The state after a list of calls. -/
def run (s : MemoryState) (requests : List Request) : MemoryState :=
  requests.foldl (fun state q => (StoreM.exec (serve q) state).2) s

/-- One call of a run, with the states it leads from and to. -/
structure Exchange where
  before : MemoryState
  request : Request
  reply : Except StoreError Reply
  after : MemoryState

/-- The calls of a run, with their replies. -/
def transcript (s : MemoryState) : List Request → List Exchange
  | [] => []
  | q :: rest =>
      let result := StoreM.exec (serve q) s
      ⟨s, q, result.1, result.2⟩ :: transcript result.2 rest

end Store.Memory
