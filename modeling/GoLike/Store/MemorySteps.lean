import GoLike.Store.Memory

/-!
# The operations of the Memory Store as state transitions

Each operation first validates its arguments and reads the clock, which leaves the state
alone, and then either throws, removes the expired records, or changes one record. The
equations below say so once for each operation; they are what later proofs use of it.
-/

namespace Store.Memory

/-! ### The removal of expired records -/

/-- The state without the expired records. -/
def MemoryState.purged (s : MemoryState) (now : Timestamp) : Except StoreError MemoryState :=
  if expiredKeys s.records now = [] then .ok s
  else if s.revision ≥ MaximumRevision then
    .error (.rangeError "Memory Store revision is exhausted")
  else .ok ⟨removeAll s.records (expiredKeys s.records now), s.revision + 1⟩

theorem exec_purgeExpired_bind {β : Type} (s : MemoryState) (now : Timestamp)
    (f : Unit → MemoryM β) :
  StoreM.exec (purgeExpired (expiredKeys s.records now) >>= f) s =
    after s (s.purged now) (fun s' => StoreM.exec (f ()) s')
  := by
  rw [exec_bind, purgeExpired, MemoryState.purged]
  by_cases hnil : expiredKeys s.records now = []
  · rw [if_pos hnil, if_pos hnil]
    rfl
  · rw [if_neg hnil, if_neg hnil]
    simp only [exec_get_bind, exec_check_bind, MemoryState.nextRevision]
    by_cases hmax : s.revision ≥ MaximumRevision
    · rw [if_pos hmax, if_pos hmax]
      rfl
    · rw [if_neg hmax, if_neg hmax]
      rfl

/-- The record that an operation finds at a key is the visible one. -/
theorem current_expiredKeys (s : MemoryState) (now : Timestamp) (key : Key) :
  s.current (expiredKeys s.records now) key = visible s.records now key
  := by
  simp only [MemoryState.current, List.contains_iff_mem, ← lookup_removeAll_expiredKeys,
    lookup_removeAll]

/-- Without its expired records a state holds the visible ones. -/
theorem lookup_purged {s s' : MemoryState} {now : Timestamp} (h : s.purged now = .ok s')
    (key : Key) :
  s'.records.lookup key = visible s.records now key
  := by
  rw [MemoryState.purged] at h
  by_cases hnil : expiredKeys s.records now = []
  · rw [if_pos hnil] at h
    cases h
    rw [← lookup_removeAll_expiredKeys, hnil]
    rfl
  · rw [if_neg hnil] at h
    split at h
    · cases h
    · cases h
      apply lookup_removeAll_expiredKeys

theorem keyed_purged {s s' : MemoryState} {now : Timestamp} (hs : Keyed s.records)
    (h : s.purged now = .ok s') :
  Keyed s'.records
  := by
  intro k r hr
  rw [lookup_purged h] at hr
  exact hs k r (visible_eq_some.mp hr).1

/-! ### The operations -/

/-- The validation of a read: its key, and the time. -/
def admitRead (ctx : Context) (clock : ClockReading) (key : JsString) :
    Except StoreError (Key × Timestamp) := do
  checkContext ctx
  let selectedKey ← storeKey key
  let now ← timestamp clock
  .ok (selectedKey, now)

/-- A read removes the expired records and returns the record that is left at its key. -/
theorem exec_read (s : MemoryState) (ctx : Context) (clock : ClockReading) (key : JsString) :
  StoreM.exec (read ctx clock key) s =
    after s (admitRead ctx clock key) (fun (selectedKey, now) =>
      after s (s.purged now) (fun s' => (.ok (s'.records.lookup selectedKey), s')))
  := by
  simp only [read, admitRead, exec_check_bind, exec_get_bind, exec_purgeExpired_bind, after_bind,
    after_ok]
  refine after_congr s fun _ _ => after_congr s fun selectedKey _ => after_congr s fun now _ =>
    after_congr s fun s' _ => ?_
  cases s'.records.lookup selectedKey with
  | none => rfl
  | some record =>
      simp only [snapshotStoreRecord_toCandidate]
      rfl

/-- The validation of a write: its input, options, time and time of expiry. -/
def admitWrite (ctx : Context) (clock : ClockReading) (value : StoreRecordInput)
    (options : List WriteOption) :
    Except StoreError (StoreRecordInputSnapshot × WriteOptions × Timestamp × Option Timestamp) :=
  do
    checkContext ctx
    let input ← snapshotStoreRecordInput value
    let resolved ← writeOptions options
    let now ← timestamp clock
    let expiresAt ← expiry now resolved.expiresInMs
    .ok (input, resolved, now, expiresAt)

/-- The record a write creates at a revision. -/
def newRecord (input : StoreRecordInputSnapshot) (revision : ℕ) (expiresAt : Option Timestamp) :
    StoreRecord :=
  ⟨input.key, input.value, input.metadata, revisionText revision, expiresAt⟩

theorem snapshotStoreRecord_newRecord (input : StoreRecordInputSnapshot) (revision : ℕ)
    (expiresAt : Option Timestamp) :
  snapshotStoreRecord
    { key := input.key.val
      value := input.value
      metadata := input.metadata.toObject
      revision := JsString.ofNat revision
      expiresAt := expiresAt.map (fun n => JsNumber.ofNat n.val) } =
    .ok (newRecord input revision expiresAt)
  := snapshotStoreRecord_toCandidate (newRecord input revision expiresAt)

/-- A write whose condition holds of the visible record creates a record of the next
revision, and removes the expired records. -/
theorem exec_write (s : MemoryState) (ctx : Context) (clock : ClockReading)
    (value : StoreRecordInput) (options : List WriteOption) :
  StoreM.exec (write ctx clock value options) s =
    after s (admitWrite ctx clock value options) (fun (input, resolved, now, expiresAt) =>
      after s (checkWrite input.key resolved (visible s.records now input.key)) (fun _ =>
        after s s.nextRevision (fun candidateRevision =>
          let record := newRecord input candidateRevision expiresAt
          (.ok record,
            ⟨(removeAll s.records (expiredKeys s.records now)).insert input.key record,
              candidateRevision⟩))))
  := by
  simp only [write, admitWrite, exec_check_bind, exec_get_bind, current_expiredKeys, after_bind,
    after_ok]
  refine after_congr s fun _ _ => after_congr s fun input _ => after_congr s fun resolved _ =>
    after_congr s fun now _ => after_congr s fun expiresAt _ => after_congr s fun _ _ =>
    after_congr s fun candidateRevision _ => ?_
  rw [snapshotStoreRecord_newRecord, after_ok, exec_set_bind, exec_check,
    snapshotStoreRecord_toCandidate]

/-- The validation of a delete: its key, options and time. -/
def admitDelete (ctx : Context) (clock : ClockReading) (key : JsString)
    (options : List DeleteOption) : Except StoreError (Key × DeleteOptions × Timestamp) := do
  checkContext ctx
  let selectedKey ← storeKey key
  let resolved ← deleteOptions options
  let now ← timestamp clock
  .ok (selectedKey, resolved, now)

/-- A delete whose condition holds removes the visible record, if there is one, and the
expired records. -/
theorem exec_delete (s : MemoryState) (ctx : Context) (clock : ClockReading) (key : JsString)
    (options : List DeleteOption) :
  StoreM.exec (delete ctx clock key options) s =
    after s (admitDelete ctx clock key options) (fun (selectedKey, resolved, now) =>
      after s (checkDelete selectedKey resolved (visible s.records now selectedKey)) (fun _ =>
        match visible s.records now selectedKey with
        | none => after s (s.purged now) (fun s' => (.ok false, s'))
        | some _ =>
            after s s.nextRevision (fun candidateRevision =>
              (.ok true,
                ⟨(removeAll s.records (expiredKeys s.records now)).erase selectedKey,
                  candidateRevision⟩))))
  := by
  simp only [delete, admitDelete, exec_check_bind, exec_get_bind, current_expiredKeys,
    after_bind, after_ok]
  refine after_congr s fun _ _ => after_congr s fun selectedKey _ =>
    after_congr s fun resolved _ => after_congr s fun now _ => after_congr s fun _ _ => ?_
  cases visible s.records now selectedKey with
  | none => simp only [exec_purgeExpired_bind, exec_pure]
  | some record => simp only [exec_check_bind, exec_set_bind, exec_pure]

/-- The validation of a list: its options, cursor and time. -/
def admitList (ctx : Context) (clock : ClockReading) (options : List ListOption) :
    Except StoreError (ListOptions × Option DecodedCursor × Timestamp) := do
  checkContext ctx
  let resolved ← listOptions options
  let decoded ← nullable decodeCursor resolved.cursor
  let now ← timestamp clock
  .ok (resolved, decoded, now)

/-- The cursor does not belong to the state and the text that keys begin with. -/
def stale (s : MemoryState) (keyPrefix : JsString) (decoded : Option DecodedCursor) : Prop :=
  ∃ cursor ∈ decoded, cursor.revision ≠ s.revision ∨ cursor.keyPrefix ≠ keyPrefix ∨
    (matching s.records keyPrefix).length < cursor.offset

/-- A list removes the expired records and, unless its cursor is stale, returns the page
the cursor designates. -/
theorem exec_list (s : MemoryState) (hkeyed : Keyed s.records)
    (ctx : Context) (clock : ClockReading) (options : List ListOption) :
  StoreM.exec (list ctx clock options) s =
    after s (admitList ctx clock options) (fun (resolved, decoded, now) =>
      after s (s.purged now) (fun s' =>
        open Classical in
        if stale s' resolved.keyPrefix.val decoded then (.error cursorError, s')
        else (.ok (s'.pageOf resolved (startOf decoded)), s')))
  := by
  simp only [list, admitList, exec_check_bind, exec_get_bind, exec_purgeExpired_bind, after_bind,
    after_ok]
  refine after_congr s fun _ _ => after_congr s fun resolved _ =>
    after_congr s fun decoded _ => after_congr s fun now _ => after_congr s fun s' hs' => ?_
  have hsnapshot : snapshotStorePage (s'.pageOf resolved (startOf decoded)) =
      .ok (s'.pageOf resolved (startOf decoded)) := by
    apply snapshotStorePage_pageFrom (matching_sorted (keyed_purged hkeyed hs') _)
    intro n
    rfl
  have hiff : stale s' resolved.keyPrefix.val decoded ↔
      (decoded.any (fun cursor =>
          cursor.revision ≠ s'.revision ∨ cursor.keyPrefix ≠ resolved.keyPrefix.val) = true ∨
        startOf decoded > (matching s'.records resolved.keyPrefix.val).length) := by
    cases decoded with
    | none => simp [stale, startOf]
    | some cursor => simp [stale, startOf, or_assoc]
  by_cases hother : decoded.any (fun cursor =>
      cursor.revision ≠ s'.revision ∨ cursor.keyPrefix ≠ resolved.keyPrefix.val) = true
  · rw [if_pos hother, if_pos (hiff.mpr (.inl hother))]
    rfl
  · rw [if_neg hother]
    by_cases hoffset : startOf decoded > (matching s'.records resolved.keyPrefix.val).length
    · rw [if_pos (hiff.mpr (.inr hoffset))]
      simp only [if_pos hoffset]
      rfl
    · rw [if_neg (fun h => (hiff.mp h).elim hother hoffset)]
      simp only [if_neg hoffset, hsnapshot, exec_check]

end Store.Memory
