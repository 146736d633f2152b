import GoLike.Store.FileEffects

/-!
# Durability of the File Store

After each operation the snapshot file holds the records in memory, apart from records that
have expired. An operation that throws leaves the file and, apart from expired records, the
memory as they were. A store started from the file serves the same visible records.

The caller of an operation whose context ends stops waiting for it, and is told of the
cancellation even when the operation then succeeds.
-/

namespace Store.File

variable (digest : Json → Digest)

/-! ### The file and the memory -/

/-- The file holds the records at the generation; a missing file holds no records. -/
def Holds (file : Option SnapshotBytes) (records : Records) (revision : ℕ) : Prop :=
  match file with
  | none => records = ∅ ∧ revision = 0
  | some bytes => decodeSnapshot digest bytes = .ok ⟨records, revision⟩

/-- The tables have the same records, apart from records of the first that have expired at
`now` and that the second does not have. -/
def UpToExpiry (now : Timestamp) (stored records : Records) : Prop :=
  ∀ key, records.lookup key = stored.lookup key ∨
    (records.lookup key = none ∧ ∃ r, stored.lookup key = some r ∧ expired now r = true)

theorem UpToExpiry.visible {now later : Timestamp} {stored records : Records}
    (h : UpToExpiry now stored records) (hle : now ≤ later) (key : Key) :
  visible records later key = visible stored later key
  := by
  obtain heq | ⟨hnone, r, hr, hexp⟩ := h key
  · rw [Store.visible, Store.visible, heq]
  · simp [Store.visible, hnone, hr, Option.filter, expired_of_le hle hexp]

theorem UpToExpiry.later {now later : Timestamp} {stored records : Records}
    (h : UpToExpiry now stored records) (hle : now ≤ later) :
  UpToExpiry later stored records
  := by
  intro key
  obtain heq | ⟨hnone, r, hr, hexp⟩ := h key
  · exact .inl heq
  · exact .inr ⟨hnone, r, hr, expired_of_le hle hexp⟩

theorem UpToExpiry.purge {now : Timestamp} {stored records records' : Records}
    (h : UpToExpiry now stored records)
    (hlookup : ∀ key, records'.lookup key = Store.visible records now key) :
  UpToExpiry now stored records'
  := by
  intro key
  rw [hlookup, h.visible le_rfl, Store.visible]
  cases hr : stored.lookup key with
  | none => exact .inl rfl
  | some r =>
      cases hexp : expired now r with
      | false => exact .inl (by simp [Option.filter, hexp])
      | true => exact .inr ⟨by simp [Option.filter, hexp], r, rfl, hexp⟩

/-- The records in memory can be stored, and the file holds them, apart from records that
have expired at `now`. -/
structure Durable (now : Timestamp) (s : FileState) : Prop where
  storable : StorableAll s.records s.revision
  file : ∃ stored revision, Holds digest s.file stored revision ∧ revision ≤ s.revision ∧
    UpToExpiry now stored s.records

variable {digest}

theorem Storable.later {revision revision' : ℕ} {r : StoreRecord} (h : Storable revision r)
    (hle : revision ≤ revision') :
  Storable revision' r
  := ⟨h.decimal, h.positive, h.issued.trans hle, h.keyBytes, h.valueBytes⟩

theorem revision_purged (s : FileState) (now : Timestamp) :
  s.revision ≤ (s.purged now).revision
  := by
  rw [FileState.purged]
  split
  · exact le_rfl
  · split
    · exact le_rfl
    · exact Nat.le_succ _

theorem revision_purged_le {s : FileState} (hs : s.revision ≤ MaximumRevision) (now : Timestamp) :
  (s.purged now).revision ≤ MaximumRevision
  := by
  rw [FileState.purged]
  split
  · exact hs
  · split
    · exact hs
    · rename_i hmax
      exact not_le.mp hmax

theorem storableAll_purged {s : FileState} (hs : StorableAll s.records s.revision)
    (now : Timestamp) :
  StorableAll (s.purged now).records (s.purged now).revision
  := by
  refine ⟨revision_purged_le hs.revision_le now, keyed_purged hs.keyed, ?_⟩
  intro key r hr
  rw [lookup_purged] at hr
  exact (hs.storable key r (visible_eq_some.mp hr).1).later (revision_purged s now)

theorem Durable.later {now later : Timestamp} {s : FileState} (h : Durable digest now s)
    (hle : now ≤ later) :
  Durable digest later s
  := by
  obtain ⟨stored, revision, hholds, hrevision, hup⟩ := h.file
  exact ⟨h.storable, stored, revision, hholds, hrevision, hup.later hle⟩

theorem Durable.purged {now : Timestamp} {s : FileState} (h : Durable digest now s) :
  Durable digest now (s.purged now)
  := by
  obtain ⟨stored, revision, hholds, hrevision, hup⟩ := h.file
  refine ⟨storableAll_purged h.storable now, stored, revision, ?_,
    hrevision.trans (revision_purged s now), hup.purge (lookup_purged s now)⟩
  rw [file_purged]
  exact hholds

/-- After a snapshot is written the file holds what it was taken of. -/
theorem durable_persisted {records : Records} {revision : ℕ} (h : StorableAll records revision)
    (now : Timestamp) (dirtyExpiry : Bool) :
  Durable digest now
    ⟨records, revision, dirtyExpiry, some (encodeSnapshot digest records revision)⟩
  := by
  obtain ⟨stored, hdecode, hlookup⟩ := decodeSnapshot_encodeSnapshot digest h
  refine ⟨h, stored, revision, hdecode, le_rfl, ?_⟩
  intro key
  exact .inl (hlookup key).symm

theorem storableAll_changed {s : FileState} {candidate : Records}
    (hs : StorableAll s.records s.revision) (hmax : s.revision < MaximumRevision)
    (hcandidate : ∀ key r, candidate.lookup key = some r →
      s.records.lookup key = some r ∨ (r.key = key ∧ Storable (s.revision + 1) r)) :
  StorableAll candidate (s.revision + 1)
  := by
  refine ⟨hmax, ?_, ?_⟩
  · intro key r hr
    obtain hold | ⟨hkey, -⟩ := hcandidate key r hr
    · exact hs.keyed key r hold
    · exact hkey
  · intro key r hr
    obtain hold | ⟨-, hnew⟩ := hcandidate key r hr
    · exact (hs.storable key r hold).later (Nat.le_succ _)
    · exact hnew

/-- Every operation keeps the invariant. -/
theorem Durable.effect {α : Type} {now : Timestamp} {s s' : FileState}
    {outcome : Except StoreError α} (h : Durable digest now s)
    (heffect : Effect digest s now (outcome, s')) :
  Durable digest now s'
  := by
  cases heffect with
  | unchanged e => exact h
  | purged outcome => exact h.purged
  | flushed a hnot => exact durable_persisted (storableAll_purged h.storable now) now false
  | changed a candidate hnot hmax hcandidate =>
      exact durable_persisted
        (storableAll_changed (storableAll_purged h.storable now) hmax hcandidate) now false

theorem Durable.next {now : Timestamp} {s : FileState} (h : Durable digest now s) {q : Request}
    (hclock : now ≤ q.circumstances.now) :
  Durable digest q.circumstances.now (next digest s q)
  := (h.later hclock).effect (serve_effect digest h.storable.keyed q)

/-! ### Runs -/

/-- The times of the calls do not decrease, and lie between `now` and `later`. -/
def Clocked (now : Timestamp) : List Request → Timestamp → Prop
  | [], later => now ≤ later
  | q :: rest, later => now ≤ q.circumstances.now ∧ Clocked q.circumstances.now rest later

variable (digest) in
/-- The state after a list of calls. -/
def run (s : FileState) (requests : List Request) : FileState := requests.foldl (next digest) s

theorem Durable.run {now later : Timestamp} {s : FileState} (h : Durable digest now s)
    {requests : List Request} (hclock : Clocked now requests later) :
  Durable digest later (run digest s requests)
  := by
  induction requests generalizing s now with
  | nil => exact h.later hclock
  | cons q rest ih => exact ih (h.next hclock.1) hclock.2

/-! ### Starting a store -/

/-- The host does its part in a start, and the context does not end. -/
structure StartCircumstances.Healthy (c : StartCircumstances) : Prop where
  admitted : checkContext c.admitted = .ok ()
  acquire : c.acquire = none
  remove : c.remove = none
  read : c.read = none
  loaded : checkContext c.loaded = .ok ()

/-- A store that has started has loaded what the file holds, without the records that had
expired. -/
theorem start_eq_ok {c : StartCircumstances} {file : Option SnapshotBytes} {s : FileState}
    (h : start digest c file = .ok s) :
  ∃ stored revision, Holds digest file stored revision ∧ StorableAll stored revision ∧
    ¬ (FileState.mk stored revision false file).Exhausted c.now ∧
    s = (FileState.mk stored revision false file).purged c.now
  := by
  simp only [start, bind_eq_ok] at h
  obtain ⟨_, -, _, -, _, -, _, -, h⟩ := h
  cases file with
  | none =>
      simp only [bind_eq_ok, Except.ok.injEq] at h
      obtain ⟨_, -, rfl⟩ := h
      refine ⟨∅, 0, ⟨rfl, rfl⟩, ⟨Nat.zero_le _, by simp [Keyed], by simp⟩, ?_, rfl⟩
      rintro ⟨hne, -⟩
      exact hne rfl
  | some bytes =>
      simp only [bind_eq_ok, exec_purgeExpired] at h
      obtain ⟨⟨records, revision⟩, hdecode, h⟩ := h
      have hdecode' : decodeSnapshot digest bytes = .ok ⟨records, revision⟩ := by
        cases hd : decodeSnapshot digest bytes with
        | ok loaded =>
            rw [hd] at hdecode
            cases hdecode
            rfl
        | error reason =>
            rw [hd] at hdecode
            cases hdecode
      refine ⟨records, revision, hdecode', decodeSnapshot_storable hdecode', ?_⟩
      split at h
      · cases h
      · rename_i heq
        simp only [bind_eq_ok, Except.ok.injEq] at h
        obtain ⟨_, -, rfl⟩ := h
        simp only [Prod.mk.injEq] at heq
        obtain ⟨hok, rfl⟩ := heq
        refine ⟨?_, rfl⟩
        intro hexhausted
        rw [if_pos hexhausted] at hok
        cases hok

/-- A store starts from a file that holds storable records, unless records have expired
and no generation is left for their removal. -/
theorem start_healthy {c : StartCircumstances} (hc : c.Healthy) {file : Option SnapshotBytes}
    {stored : Records} {revision : ℕ} (hholds : Holds digest file stored revision)
    (hnot : ¬ (FileState.mk stored revision false file).Exhausted c.now) :
  start digest c file = .ok ((FileState.mk stored revision false file).purged c.now)
  := by
  obtain ⟨hadmitted, hacquire, hremove, hread, hloaded⟩ := hc
  cases file with
  | none =>
      obtain ⟨rfl, rfl⟩ := hholds
      simp only [start, hadmitted, hacquire, hremove, hread, hloaded]
      rfl
  | some bytes =>
      have hdecode : decodeSnapshot digest bytes = .ok ⟨stored, revision⟩ := hholds
      simp only [start, hadmitted, hacquire, hremove, hread, hloaded, hdecode, exec_purgeExpired,
        hostCall, Except.mapError, bind, Except.bind, if_neg hnot]

/-- A store that has started is in a durable state. -/
theorem durable_of_start {c : StartCircumstances} {file : Option SnapshotBytes} {s : FileState}
    (h : start digest c file = .ok s) :
  Durable digest c.now s
  := by
  obtain ⟨stored, revision, hholds, hstorable, -, rfl⟩ := start_eq_ok h
  have hloaded : Durable digest c.now ⟨stored, revision, false, file⟩ :=
    ⟨hstorable, stored, revision, hholds, le_rfl, fun key => .inl rfl⟩
  exact hloaded.purged

theorem holds_unique {file : Option SnapshotBytes} {stored stored' : Records}
    {revision revision' : ℕ} (h : Holds digest file stored revision)
    (h' : Holds digest file stored' revision') :
  stored = stored' ∧ revision = revision'
  := by
  cases file with
  | none =>
      obtain ⟨rfl, rfl⟩ := h
      obtain ⟨rfl, rfl⟩ := h'
      exact ⟨rfl, rfl⟩
  | some bytes =>
      have heq : (.ok ⟨stored, revision⟩ : Except FileStoreCorruptionReason LoadedSnapshot) =
          .ok ⟨stored', revision'⟩ := Eq.trans (Eq.symm h) h'
      cases heq
      exact ⟨rfl, rfl⟩

/-! ### Durability -/

variable (digest) in
/-- What the runs of a store that is in state `s₀` at `t₀` keep. -/
structure KeepsRecords (t₀ : Timestamp) (s₀ : FileState) : Prop where
  /-- After every operation the snapshot file is accepted, and holds the records in memory,
  apart from records that have expired. -/
  stored : ∀ {requests now}, Clocked t₀ requests now →
    ∃ records revision, Holds digest (run digest s₀ requests).file records revision ∧
      revision ≤ (run digest s₀ requests).revision ∧
      UpToExpiry now records (run digest s₀ requests).records
  /-- An operation that throws leaves the file as it was, and the memory too, apart from the
  removal of expired records, for which it may take one generation. -/
  rejected : ∀ {requests now q e}, Clocked t₀ requests now → now ≤ q.circumstances.now →
    (StoreM.exec (serve digest q) (run digest s₀ requests)).1 = .error e →
    (next digest (run digest s₀ requests) q).file = (run digest s₀ requests).file ∧
      (∀ later, q.circumstances.now ≤ later → ∀ key,
        visible (next digest (run digest s₀ requests) q).records later key =
          visible (run digest s₀ requests).records later key) ∧
      (next digest (run digest s₀ requests) q = run digest s₀ requests ∨
        next digest (run digest s₀ requests) q =
          (run digest s₀ requests).purged q.circumstances.now)
  /-- When the caller has stopped waiting, the operation has either thrown or succeeded;
  otherwise the caller receives its outcome. -/
  reply : ∀ {requests q},
    (q.circumstances.abandoned = none →
      reply digest (run digest s₀ requests) q =
        (StoreM.exec (serve digest q) (run digest s₀ requests)).1) ∧
    (∀ f, q.circumstances.abandoned = some f →
      reply digest (run digest s₀ requests) q = .error (.failure f))
  /-- A store started from the file serves the same visible records, unless records in the
  file have expired and no generation is left for their removal. -/
  restarted : ∀ {requests now c}, Clocked t₀ requests now → now ≤ c.now → c.Healthy →
    (∀ records revision, Holds digest (run digest s₀ requests).file records revision →
      expiredKeys records c.now = [] ∨ revision < MaximumRevision) →
    ∃ s, start digest c (run digest s₀ requests).file = .ok s ∧
      ∀ later, c.now ≤ later → ∀ key,
        visible s.records later key = visible (run digest s₀ requests).records later key

/-- A store that was started keeps its records in its file. -/
theorem start_keepsRecords {c₀ : StartCircumstances} {file₀ : Option SnapshotBytes}
    {s₀ : FileState} (h : start digest c₀ file₀ = .ok s₀) :
  KeepsRecords digest c₀.now s₀
  := by
  have hs₀ := durable_of_start h
  constructor
  case stored =>
    intro requests now hclock
    obtain ⟨records, revision, hholds, hrevision, hup⟩ := (hs₀.run hclock).file
    exact ⟨records, revision, hholds, hrevision, hup⟩
  case rejected =>
    intro requests now q e hclock hle he
    have hs := hs₀.run hclock
    obtain hsame | hpurged := next_of_error digest hs.storable.keyed he
    · rw [hsame]
      exact ⟨rfl, fun _ _ _ => rfl, .inl rfl⟩
    · rw [hpurged]
      refine ⟨file_purged _ _, ?_, .inr rfl⟩
      intro later hlater key
      apply visible_of_lookup (lookup_purged _ _ key) hlater
  case reply =>
    intro requests q
    constructor
    · intro hnone
      simp only [reply, waitForContext, hnone]
    · intro f hf
      simp only [reply, waitForContext, hf]
  case restarted =>
    intro requests now c hclock hle hc hnot
    obtain ⟨records, revision, hholds, -, hup⟩ := (hs₀.run hclock).file
    have hnot' : ¬ (FileState.mk records revision false (run digest s₀ requests).file).Exhausted
        c.now := by
      rintro ⟨hne, hmax⟩
      obtain hnil | hlt := hnot records revision hholds
      · exact hne hnil
      · exact absurd hlt (not_lt.mpr hmax)
    refine ⟨_, start_healthy hc hholds hnot', ?_⟩
    intro later hlater key
    rw [hup.visible (hle.trans hlater)]
    apply visible_of_lookup (lookup_purged _ _ key) hlater

/-! ### Callers that stop waiting -/

/-- A digest. -/
def zeroDigest : Json → Digest := fun _ => ⟨List.replicate 32 0, rfl⟩

/-- Circumstances in which nothing fails. -/
def calm (now : Timestamp) : Circumstances :=
  ⟨background, now, now, background, none, background, none, none⟩

/-- The circumstances of a start in which nothing fails. -/
def calmStart (now : Timestamp) : StartCircumstances :=
  ⟨background, none, none, none, now, background⟩

/-- The state of a store that was started on an empty directory. -/
def emptyState : FileState := ⟨∅, 0, false, none⟩

theorem start_emptyState (now : Timestamp) :
  start zeroDigest (calmStart now) none = .ok emptyState
  := rfl

theorem start_keepsRecords_empty :
  KeepsRecords zeroDigest ⟨0, Nat.zero_le _⟩ emptyState
  := start_keepsRecords (start_emptyState ⟨0, Nat.zero_le _⟩)

/-- A write whose caller stops waiting. -/
def abandonedWrite : Request :=
  ⟨{ calm ⟨0, Nat.zero_le _⟩ with abandoned := some ⟨"canceled"⟩ },
    .write ⟨name "a", [], none⟩ []⟩

/-- The caller of the write is told of the cancellation, and yet the write succeeds. -/
theorem abandonedWrite_succeeds :
  reply zeroDigest emptyState abandonedWrite = .error (.failure ⟨"canceled"⟩) ∧
    ((next zeroDigest emptyState abandonedWrite).records.entries.map
      (fun entry => entry.1.val)) = [name "a"] ∧
    (next zeroDigest emptyState abandonedWrite).file.isSome = true
  := ⟨rfl, rfl, rfl⟩

end Store.File
