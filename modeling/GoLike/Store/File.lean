import GoLike.Store.Computation
import GoLike.Store.FileSnapshot

/-!
# The File Store

The provider that keeps its records in memory and, after each mutation, in a snapshot file.
A mutation writes a temporary file and renames it over the snapshot; the records in memory
change after the rename. Expired records are removed from memory by every operation, which
takes a generation but does not write the snapshot.

The operations of a running store are performed one after the other. What the contexts, the
clock and the host do during an operation are its circumstances. The caller of an operation
whose context ends stops waiting for it, while the operation goes on.
-/

namespace Store.File

def CursorVersion : ℕ := 1

def MaximumTTLMilliseconds : ℕ := 2147483647

def MaximumListLimit : ℕ := 1000

/-- The state of a File Store and of its directory. -/
structure FileState where
  records : Records
  revision : ℕ
  /-- Expired records were removed from memory since the snapshot was written. -/
  dirtyExpiry : Bool
  /-- The snapshot file, if there is one. -/
  file : Option SnapshotBytes

/-- A computation of a File Store. -/
abbrev FileM : Type → Type := StoreM FileState

/-- What happens during an operation. -/
structure Circumstances where
  /-- The context when the operation is performed. -/
  admitted : Context
  /-- The time at which expired records are removed. -/
  now : Timestamp
  /-- The time from which the lifetime of a written record counts. -/
  writtenAt : Timestamp
  /-- The context after the snapshot is encoded. -/
  encoded : Context
  /-- What writing the temporary file throws. -/
  tempWrite : Option Failure
  /-- The context after the temporary file is written. -/
  beforeRename : Context
  /-- What renaming the temporary file throws. -/
  rename : Option Failure
  /-- The cause for which the caller stops waiting. -/
  abandoned : Option Failure

/-- The outcome of a call of the host. -/
def hostCall (failure : Option Failure) : Except StoreError Unit :=
  match failure with
  | some f => .error (.failure f)
  | none => .ok ()

/-! ### Validation -/

/-- Validate a string, without disclosing it in the error. -/
def fileString (value : JsString) (nonEmpty : Bool) : Except StoreError (ExactString nonEmpty) :=
  match exactly? nonEmpty value with
  | none => .error (.typeError "File Store string is invalid")
  | some s => .ok s

/-- Validate a key and the number of its bytes. -/
def storeKey (value : JsString) : Except StoreError Key := do
  let key ← fileString value true
  if key.val.utf8Length > MaximumKeyBytes then
    .error (.rangeError "File Store key exceeds maximumKeyBytes")
  else .ok key

/-- Check the number of bytes of a value. -/
def checkValue (value : List UInt8) : Except StoreError Unit :=
  if value.length > MaximumValueBytes then
    .error (.rangeError "File Store value exceeds maximumValueBytes")
  else .ok ()

/-- Check a lifetime. -/
def checkTTL (expiresInMs : Option PositiveInteger) : Except StoreError Unit :=
  match expiresInMs with
  | none => .ok ()
  | some duration =>
      if duration.val < 1 ∨ duration.val > MaximumTTLMilliseconds then
        .error (.rangeError "File Store ttl is outside provider bounds")
      else .ok ()

/-- The time of expiry of a record written at `now`. -/
def expiry (now : Timestamp) (durationMs : Option PositiveInteger) :
    Except StoreError (Option Timestamp) :=
  match durationMs with
  | none => .ok none
  | some duration =>
      if h : now.val + duration.val ≤ JsNumber.MaxSafeInteger then
        .ok (some ⟨now.val + duration.val, h⟩)
      else .error (.rangeError "File Store expiry exceeds safe timestamp bounds")

/-- Check the limit of a list. -/
def checkLimit (limit : Option PositiveInteger) : Except StoreError Unit :=
  match limit with
  | none => .ok ()
  | some limit =>
      if limit.val > MaximumListLimit then
        .error (.rangeError "File Store list limit exceeds 1000")
      else .ok ()

/-! ### Cursors -/

/-- The cursor of an offset into a listing at a generation. Its text is the base64 encoding
of the text of a document, and is represented by this document. -/
def encodeCursor (revision : ℕ) (selectedPrefix : JsString) (offset : ℕ) : JsonText :=
  Json.stringify (.object
    [(name "version", .number (.ofNat CursorVersion)), (name "revision", .number (.ofNat revision)),
      (name "prefix", .string selectedPrefix), (name "offset", .number (.ofNat offset))])

/-- The error of a cursor that is invalid or stale. -/
def cursorError : StoreError := .typeError "File Store cursor is invalid or stale"

/-- The offset of the document of a cursor at a generation and for a text that keys begin
with. -/
def cursorOffset (revision : ℕ) (selectedPrefix : JsString) : Json → Option ℕ
  | .object properties => do
      guard (hasKeys properties [name "offset", name "prefix", name "revision", name "version"])
      match ← Json.property properties (name "version"),
          ← Json.property properties (name "revision"),
          ← Json.property properties (name "prefix"),
          ← Json.property properties (name "offset") with
      | .number version, .number generation, .string text, .number offset =>
          guard (version = .ofNat CursorVersion ∧ generation.toSafeNat? = some revision ∧
            text = selectedPrefix)
          offset.toSafeNat?
      | _, _, _, _ => none
  | _ => none

/-- Decode a cursor, rejecting that of another generation or text. -/
def decodeCursor (value : JsonText) (revision : ℕ) (selectedPrefix : JsString) :
    Except StoreError ℕ :=
  match value.document.bind (cursorOffset revision selectedPrefix) with
  | none => .error cursorError
  | some offset => .ok offset

/-! ### Operations -/

/-- The next generation. -/
def FileState.nextRevision (s : FileState) : Except StoreError ℕ :=
  if s.revision ≥ MaximumRevision then .error (.rangeError "File Store revision is exhausted")
  else .ok (s.revision + 1)

/-- Remove the expired records, and take a generation for their removal. -/
def purgeExpired (now : Timestamp) : FileM Unit := do
  let s ← get
  let expired := expiredKeys s.records now
  if expired = [] then return ()
  -- the records are gone even when there is no generation left
  set ({ s with records := removeAll s.records expired } : FileState)
  let s ← get
  let candidateRevision ← check s.nextRevision
  set ({ s with revision := candidateRevision, dirtyExpiry := true } : FileState)

section

variable (digest : Json → Digest)

/-- Write a snapshot through a temporary file. -/
def persist (c : Circumstances) (candidate : Records) (candidateRevision : ℕ) : FileM Unit := do
  let bytes := encodeSnapshot digest candidate candidateRevision
  check (checkContext c.encoded)
  check (hostCall c.tempWrite)
  check (checkContext c.beforeRename)
  check (hostCall c.rename)
  let s ← get
  set ({ s with file := some bytes } : FileState)

/-- Read the record of a key. -/
def read (c : Circumstances) (key : JsString) : FileM (Option StoreRecord) := do
  check (checkContext c.admitted)
  let selectedKey ← check (storeKey key)
  purgeExpired c.now
  let s ← get
  match s.records.lookup selectedKey with
  | none => return none
  | some record => return some (← check (snapshotStoreRecord record.toCandidate))

/-- Create or replace the record of a key. -/
def write (c : Circumstances) (value : StoreRecordInput) (options : List WriteOption) :
    FileM StoreRecord := do
  check (checkContext c.admitted)
  let input ← check (snapshotStoreRecordInput value)
  let key ← check (storeKey input.key.val)
  check (checkValue input.value)
  let selected ← check (writeOptions options)
  check (checkTTL selected.expiresInMs)
  purgeExpired c.now
  let s ← get
  let current := s.records.lookup key
  check (checkWrite key selected current)
  let candidateRevision ← check s.nextRevision
  let expiresAt ← check (expiry c.writtenAt selected.expiresInMs)
  let record ← check (snapshotStoreRecord
    { key := key.val
      value := input.value
      metadata := input.metadata.toObject
      revision := JsString.ofNat candidateRevision
      expiresAt := expiresAt.map (fun n => JsNumber.ofNat n.val) })
  let candidate := s.records.insert key record
  persist digest c candidate candidateRevision
  let s ← get
  set ({ s with records := candidate, revision := candidateRevision, dirtyExpiry := false } :
    FileState)
  check (snapshotStoreRecord record.toCandidate)

/-- Delete the record of a key, and report whether there was a visible one. -/
def delete (c : Circumstances) (key : JsString) (options : List DeleteOption) : FileM Bool := do
  check (checkContext c.admitted)
  let selectedKey ← check (storeKey key)
  let selected ← check (deleteOptions options)
  purgeExpired c.now
  let s ← get
  let current := s.records.lookup selectedKey
  check (checkDelete selectedKey selected current)
  match current with
  | none =>
      if s.dirtyExpiry then
        persist digest c s.records s.revision
        let s ← get
        set ({ s with dirtyExpiry := false } : FileState)
      return false
  | some _ =>
      let candidate := s.records.erase selectedKey
      let candidateRevision ← check s.nextRevision
      persist digest c candidate candidateRevision
      let s ← get
      set ({ s with records := candidate, revision := candidateRevision, dirtyExpiry := false } :
        FileState)
      return true

/-- The greatest number of records of a page. -/
def pageLimit (limit : Option PositiveInteger) : ℕ :=
  match limit with
  | none => MaximumListLimit
  | some limit => limit.val

/-- The page of a listing that starts at an offset. -/
def FileState.pageOf (s : FileState) (selected : ListOptions) (offset : ℕ) : StorePage :=
  pageFrom (matching s.records selected.keyPrefix.val) offset (pageLimit selected.limit)
    (encodeCursor s.revision selected.keyPrefix.val)

/-- List a page of the records whose keys begin with a text. -/
def list (c : Circumstances) (options : List ListOption) : FileM StorePage := do
  check (checkContext c.admitted)
  let selected ← check (listOptions options)
  check (checkLimit selected.limit)
  purgeExpired c.now
  let s ← get
  let offset ← check (match selected.cursor with
    | none => .ok 0
    | some cursor => decodeCursor cursor s.revision selected.keyPrefix.val)
  if offset > (matching s.records selected.keyPrefix.val).length then throw cursorError
  check (snapshotStorePage (s.pageOf selected offset))

/-! ### Calls -/

/-- A call of an operation, with its arguments. -/
inductive Call where
  | read (key : JsString)
  | write (value : StoreRecordInput) (options : List WriteOption)
  | delete (key : JsString) (options : List DeleteOption)
  | list (options : List ListOption)

/-- A call, with its circumstances. -/
structure Request where
  circumstances : Circumstances
  call : Call

/-- The value an operation returns. -/
inductive Reply where
  | found (record : Option StoreRecord)
  | written (record : StoreRecord)
  | deleted (removed : Bool)
  | page (page : StorePage)

/-- Perform a call. -/
def serve (q : Request) : FileM Reply :=
  match q.call with
  | .read key => .found <$> read q.circumstances key
  | .write value options => .written <$> write digest q.circumstances value options
  | .delete key options => .deleted <$> delete digest q.circumstances key options
  | .list options => .page <$> list q.circumstances options

/-- What the caller of an operation receives: its outcome, unless the caller stops waiting. -/
def waitForContext (abandoned : Option Failure) (outcome : Except StoreError Reply) :
    Except StoreError Reply :=
  match abandoned with
  | some f => .error (.failure f)
  | none => outcome

/-- The reply to a call. -/
def reply (s : FileState) (q : Request) : Except StoreError Reply :=
  waitForContext q.circumstances.abandoned (StoreM.exec (serve digest q) s).1

/-- The state after a call. -/
def next (s : FileState) (q : Request) : FileState := (StoreM.exec (serve digest q) s).2

/-! ### Start -/

/-- What happens while a store starts. -/
structure StartCircumstances where
  admitted : Context
  /-- What acquiring the directory throws. -/
  acquire : Option Failure
  /-- What removing the temporary file throws. -/
  remove : Option Failure
  /-- What reading the snapshot file throws. -/
  read : Option Failure
  now : Timestamp
  /-- The context after the records are loaded. -/
  loaded : Context

/-- What starting a store throws. -/
inductive StartError where
  | store (e : StoreError)
  | corruption (reason : FileStoreCorruptionReason)
  deriving DecidableEq

/-- Start a store on a directory with the given snapshot file. -/
def start (c : StartCircumstances) (file : Option SnapshotBytes) :
    Except StartError FileState := do
  (checkContext c.admitted).mapError .store
  (hostCall c.acquire).mapError .store
  (hostCall c.remove).mapError .store
  (hostCall c.read).mapError .store
  match file with
  | none =>
      (checkContext c.loaded).mapError .store
      .ok ⟨∅, 0, false, none⟩
  | some bytes =>
      let loaded ← (decodeSnapshot digest bytes).mapError .corruption
      match StoreM.exec (purgeExpired c.now) ⟨loaded.records, loaded.revision, false, file⟩ with
      | (.error e, _) => .error (.store e)
      | (.ok _, s) =>
          (checkContext c.loaded).mapError .store
          .ok s

end

end Store.File
