import GoLike.Store.File

/-!
# The operations of the File Store as state transitions

Each operation validates its arguments, removes the expired records from memory, and then
either throws, or writes the snapshot and changes one record. The equations below say so
once for each operation.
-/

namespace Store.File

/-! ### The removal of expired records -/

/-- The error of a generation that is exhausted. -/
def exhaustedError : StoreError := .rangeError "File Store revision is exhausted"

/-- Records have expired and no generation is left for their removal. -/
def FileState.Exhausted (s : FileState) (now : Timestamp) : Prop :=
  expiredKeys s.records now ≠ [] ∧ MaximumRevision ≤ s.revision

instance (s : FileState) (now : Timestamp) : Decidable (s.Exhausted now) :=
  inferInstanceAs (Decidable (_ ∧ _))

/-- The state after the removal of the expired records, whether or not it throws. -/
def FileState.purged (s : FileState) (now : Timestamp) : FileState :=
  if expiredKeys s.records now = [] then s
  else if MaximumRevision ≤ s.revision then
    { s with records := removeAll s.records (expiredKeys s.records now) }
  else
    { s with
      records := removeAll s.records (expiredKeys s.records now)
      revision := s.revision + 1
      dirtyExpiry := true }

theorem exec_purgeExpired (s : FileState) (now : Timestamp) :
  StoreM.exec (purgeExpired now) s =
    (if s.Exhausted now then .error exhaustedError else .ok (), s.purged now)
  := by
  rw [purgeExpired, exec_get_bind, FileState.purged]
  by_cases hnil : expiredKeys s.records now = []
  · rw [if_pos hnil, if_pos hnil, if_neg (fun h => h.1 hnil)]
    rfl
  · rw [if_neg hnil, if_neg hnil]
    simp only [exec_set_bind, exec_get_bind, exec_check_bind, FileState.nextRevision]
    by_cases hmax : MaximumRevision ≤ s.revision
    · rw [if_pos hmax, if_pos hmax, if_pos ⟨hnil, hmax⟩]
      rfl
    · rw [if_neg hmax, if_neg hmax, if_neg (fun h => hmax h.2)]
      rfl

theorem exec_purgeExpired_bind {β : Type} (s : FileState) (now : Timestamp)
    (f : Unit → FileM β) :
  StoreM.exec (purgeExpired now >>= f) s =
    if s.Exhausted now then (.error exhaustedError, s.purged now)
    else StoreM.exec (f ()) (s.purged now)
  := by
  rw [exec_bind, exec_purgeExpired]
  by_cases h : s.Exhausted now
  · rw [if_pos h, if_pos h]
  · rw [if_neg h, if_neg h]

/-- Without its expired records memory holds the visible ones. -/
theorem lookup_purged (s : FileState) (now : Timestamp) (key : Key) :
  (s.purged now).records.lookup key = visible s.records now key
  := by
  rw [FileState.purged]
  split
  · rename_i hnil
    rw [← lookup_removeAll_expiredKeys, hnil]
    rfl
  · split
    · apply lookup_removeAll_expiredKeys
    · apply lookup_removeAll_expiredKeys

@[simp]
theorem file_purged (s : FileState) (now : Timestamp) :
  (s.purged now).file = s.file
  := by
  rw [FileState.purged]
  split
  · rfl
  · split
    · rfl
    · rfl

theorem keyed_purged {s : FileState} {now : Timestamp} (hs : Keyed s.records) :
  Keyed (s.purged now).records
  := by
  intro k r hr
  rw [lookup_purged] at hr
  exact hs k r (visible_eq_some.mp hr).1

/-! ### The writing of the snapshot -/

/-- The outcome of writing a snapshot. -/
def persistOutcome (c : Circumstances) : Except StoreError Unit := do
  checkContext c.encoded
  hostCall c.tempWrite
  checkContext c.beforeRename
  hostCall c.rename

variable (digest : Json → Digest)

theorem exec_persist (s : FileState) (c : Circumstances) (candidate : Records) (revision : ℕ) :
  StoreM.exec (persist digest c candidate revision) s =
    after s (persistOutcome c)
      (fun _ => (.ok (), { s with file := some (encodeSnapshot digest candidate revision) }))
  := by
  simp only [persist, persistOutcome, exec_check_bind, exec_get_bind, after_bind]
  refine after_congr s fun _ _ => after_congr s fun _ _ => after_congr s fun _ _ =>
    after_congr s fun _ _ => rfl

theorem exec_persist_bind {β : Type} (s : FileState) (c : Circumstances) (candidate : Records)
    (revision : ℕ) (f : Unit → FileM β) :
  StoreM.exec (persist digest c candidate revision >>= f) s =
    after s (persistOutcome c)
      (fun _ => StoreM.exec (f ())
        { s with file := some (encodeSnapshot digest candidate revision) })
  := by
  rw [exec_bind, exec_persist]
  cases persistOutcome c with
  | ok | error => rfl

/-! ### The operations -/

/-- The validation of a read. -/
def admitRead (c : Circumstances) (key : JsString) : Except StoreError Key := do
  checkContext c.admitted
  storeKey key

/-- A read removes the expired records and returns the record that is left at its key. -/
theorem exec_read (s : FileState) (c : Circumstances) (key : JsString) :
  StoreM.exec (read c key) s =
    after s (admitRead c key) (fun selectedKey =>
      if s.Exhausted c.now then (.error exhaustedError, s.purged c.now)
      else (.ok ((s.purged c.now).records.lookup selectedKey), s.purged c.now))
  := by
  simp only [read, admitRead, exec_check_bind, exec_get_bind, exec_purgeExpired_bind, after_bind]
  refine after_congr s fun _ _ => after_congr s fun selectedKey _ => ?_
  congr 1
  cases (s.purged c.now).records.lookup selectedKey with
  | none => rfl
  | some record =>
      simp only [snapshotStoreRecord_toCandidate]
      rfl

/-- The validation of a write: its input and options. -/
def admitWrite (c : Circumstances) (value : StoreRecordInput) (options : List WriteOption) :
    Except StoreError (StoreRecordInputSnapshot × WriteOptions) := do
  checkContext c.admitted
  let input ← snapshotStoreRecordInput value
  let _ ← storeKey input.key.val
  checkValue input.value
  let selected ← writeOptions options
  checkTTL selected.expiresInMs
  .ok (input, selected)

/-- The record a write creates at a revision. -/
def newRecord (input : StoreRecordInputSnapshot) (revision : ℕ) (expiresAt : Option Timestamp) :
    StoreRecord :=
  ⟨input.key, input.value, input.metadata, revisionText revision, expiresAt⟩

theorem snapshotStoreRecord_newRecord (input : StoreRecordInputSnapshot) (revision : ℕ)
    (expiresAt : Option Timestamp) :
  snapshotStoreRecord
    { key := input.key.val
      value := input.value
      metadata := input.metadata.toObject
      revision := JsString.ofNat revision
      expiresAt := expiresAt.map (fun n => JsNumber.ofNat n.val) } =
    .ok (newRecord input revision expiresAt)
  := snapshotStoreRecord_toCandidate (newRecord input revision expiresAt)

theorem storeKey_eq {value : JsString} {key : Key} (h : storeKey value = .ok key) :
  key.val = value ∧ key.val.utf8Length ≤ MaximumKeyBytes
  := by
  simp only [storeKey, bind_eq_ok, fileString] at h
  obtain ⟨key', hkey', h⟩ := h
  split at h
  · cases h
  · rename_i hbytes
    cases h
    split at hkey'
    · cases hkey'
    · rename_i hexact
      cases hkey'
      rw [exactly?] at hexact
      split at hexact
      · cases hexact
        exact ⟨rfl, not_lt.mp hbytes⟩
      · cases hexact

/-- A write removes the expired records; if its condition holds of what is left, it writes
the snapshot with a record of the next revision, and then changes memory. -/
theorem exec_write (s : FileState) (c : Circumstances) (value : StoreRecordInput)
    (options : List WriteOption) :
  StoreM.exec (write digest c value options) s =
    after s (admitWrite c value options) (fun (input, selected) =>
      let s' := s.purged c.now
      if s.Exhausted c.now then (.error exhaustedError, s')
      else
        after s' (checkWrite input.key selected (s'.records.lookup input.key)) (fun _ =>
          after s' s'.nextRevision (fun revision =>
            after s' (expiry c.writtenAt selected.expiresInMs) (fun expiresAt =>
              after s' (persistOutcome c) (fun _ =>
                let record := newRecord input revision expiresAt
                let candidate := s'.records.insert input.key record
                (.ok record,
                  ⟨candidate, revision, false,
                    some (encodeSnapshot digest candidate revision)⟩))))))
  := by
  simp only [write, admitWrite, exec_check_bind, exec_get_bind, exec_purgeExpired_bind, after_bind,
    after_ok]
  refine after_congr s fun _ _ => after_congr s fun input _ => after_congr s fun key hkey =>
    after_congr s fun _ _ => after_congr s fun selected _ => after_congr s fun _ _ => ?_
  have hkey' : key = input.key := Subtype.ext (storeKey_eq hkey).1
  subst hkey'
  congr 1
  refine after_congr _ fun _ _ => after_congr _ fun revision _ =>
    after_congr _ fun expiresAt _ => ?_
  rw [snapshotStoreRecord_newRecord, after_ok, exec_persist_bind]
  refine after_congr _ fun _ _ => ?_
  rw [exec_get_bind, exec_set_bind, exec_check, snapshotStoreRecord_toCandidate]

/-- The validation of a delete: its key and options. -/
def admitDelete (c : Circumstances) (key : JsString) (options : List DeleteOption) :
    Except StoreError (Key × DeleteOptions) := do
  checkContext c.admitted
  let selectedKey ← storeKey key
  let selected ← deleteOptions options
  .ok (selectedKey, selected)

/-- A delete removes the expired records; if its condition holds of what is left, it writes
the snapshot without the record of its key, and then changes memory. -/
theorem exec_delete (s : FileState) (c : Circumstances) (key : JsString)
    (options : List DeleteOption) :
  StoreM.exec (delete digest c key options) s =
    after s (admitDelete c key options) (fun (selectedKey, selected) =>
      let s' := s.purged c.now
      if s.Exhausted c.now then (.error exhaustedError, s')
      else
        after s' (checkDelete selectedKey selected (s'.records.lookup selectedKey)) (fun _ =>
          match s'.records.lookup selectedKey with
          | none =>
              if s'.dirtyExpiry = true then
                after s' (persistOutcome c) (fun _ =>
                  (.ok false,
                    ⟨s'.records, s'.revision, false,
                      some (encodeSnapshot digest s'.records s'.revision)⟩))
              else (.ok false, s')
          | some _ =>
              after s' s'.nextRevision (fun revision =>
                after s' (persistOutcome c) (fun _ =>
                  let candidate := s'.records.erase selectedKey
                  (.ok true,
                    ⟨candidate, revision, false,
                      some (encodeSnapshot digest candidate revision)⟩)))))
  := by
  simp only [delete, admitDelete, exec_check_bind, exec_get_bind, exec_purgeExpired_bind,
    after_bind, after_ok]
  refine after_congr s fun _ _ => after_congr s fun selectedKey _ =>
    after_congr s fun selected _ => ?_
  congr 1
  refine after_congr _ fun _ _ => ?_
  cases (s.purged c.now).records.lookup selectedKey with
  | none =>
      simp only
      by_cases hdirty : (s.purged c.now).dirtyExpiry = true
      · rw [if_pos hdirty, if_pos hdirty]
        rw [exec_persist_bind]
        refine after_congr _ fun _ _ => ?_
        rw [exec_get_bind, exec_set_bind, exec_pure]
      · rw [if_neg hdirty, if_neg hdirty]
        rfl
  | some record =>
      simp only [exec_check_bind, exec_persist_bind]
      refine after_congr _ fun revision _ => after_congr _ fun _ _ => ?_
      rw [exec_get_bind, exec_set_bind, exec_pure]

/-- The validation of a list: its options. -/
def admitList (c : Circumstances) (options : List ListOption) :
    Except StoreError ListOptions := do
  checkContext c.admitted
  let selected ← listOptions options
  checkLimit selected.limit
  .ok selected

/-- The offset that a cursor designates at a generation. -/
def offsetOf (revision : ℕ) (selected : ListOptions) : Except StoreError ℕ :=
  match selected.cursor with
  | none => .ok 0
  | some cursor => decodeCursor cursor revision selected.keyPrefix.val

/-- A list removes the expired records and returns the page its cursor designates. -/
theorem exec_list (s : FileState) (hkeyed : Keyed s.records) (c : Circumstances)
    (options : List ListOption) :
  StoreM.exec (list c options) s =
    after s (admitList c options) (fun selected =>
      let s' := s.purged c.now
      if s.Exhausted c.now then (.error exhaustedError, s')
      else
        after s' (offsetOf s'.revision selected) (fun offset =>
          if offset > (matching s'.records selected.keyPrefix.val).length then
            (.error cursorError, s')
          else (.ok (s'.pageOf selected offset), s')))
  := by
  simp only [list, admitList, exec_check_bind, exec_get_bind, exec_purgeExpired_bind, after_bind,
    after_ok]
  refine after_congr s fun _ _ => after_congr s fun selected _ => after_congr s fun _ _ => ?_
  congr 1
  refine after_congr _ fun offset _ => ?_
  have hsnapshot : snapshotStorePage ((s.purged c.now).pageOf selected offset) =
      .ok ((s.purged c.now).pageOf selected offset) := by
    apply snapshotStorePage_pageFrom (matching_sorted (keyed_purged hkeyed) _)
    intro n
    rfl
  by_cases hoffset : offset > (matching (s.purged c.now).records selected.keyPrefix.val).length
  · rw [if_pos hoffset, if_pos hoffset]
    rfl
  · rw [if_neg hoffset, if_neg hoffset]
    simp only [hsnapshot, exec_check]

end Store.File
