import GoLike.Store.FileSteps

/-!
# What an operation of the File Store does to its state

An operation leaves the state as it was, removes the expired records from memory, or also
writes a snapshot of what is then in memory; one that throws does not write a snapshot. The
invariant that the records in memory can be stored, and that the snapshot file is accepted,
is kept by every operation and established by starting a store.
-/

namespace Store.File

variable (digest : Json → Digest)

/-- What an operation at `now` can result in. -/
inductive Effect {α : Type} (s : FileState) (now : Timestamp) :
    Except StoreError α × FileState → Prop where
  /-- The operation was not admitted. -/
  | unchanged (e : StoreError) : Effect s now (.error e, s)
  /-- The expired records were removed from memory. -/
  | purged (outcome : Except StoreError α) : Effect s now (outcome, s.purged now)
  /-- The snapshot was written without the expired records. -/
  | flushed (a : α) (hnot : ¬ s.Exhausted now) :
      Effect s now (.ok a, ⟨(s.purged now).records, (s.purged now).revision, false,
        some (encodeSnapshot digest (s.purged now).records (s.purged now).revision)⟩)
  /-- The snapshot was written with other records, at the next generation. -/
  | changed (a : α) (candidate : Records) (hnot : ¬ s.Exhausted now)
      (hmax : (s.purged now).revision < MaximumRevision)
      (hcandidate : ∀ key r, candidate.lookup key = some r →
        (s.purged now).records.lookup key = some r ∨
          (r.key = key ∧ Storable ((s.purged now).revision + 1) r)) :
      Effect s now (.ok a, ⟨candidate, (s.purged now).revision + 1, false,
        some (encodeSnapshot digest candidate ((s.purged now).revision + 1))⟩)

variable {digest} in
theorem Effect.map {α β : Type} {s : FileState} {now : Timestamp}
    {outcome : Except StoreError α × FileState} (h : Effect digest s now outcome) (f : α → β) :
  Effect digest s now (outcome.1.map f, outcome.2)
  := by
  cases h with
  | unchanged e => exact .unchanged e
  | purged outcome => exact .purged _
  | flushed a hnot => exact .flushed _ hnot
  | changed a candidate hnot hmax hcandidate => exact .changed _ candidate hnot hmax hcandidate

theorem nextRevision_eq_ok {s : FileState} {revision : ℕ} (h : s.nextRevision = .ok revision) :
  revision = s.revision + 1 ∧ s.revision < MaximumRevision
  := by
  rw [FileState.nextRevision] at h
  split at h
  · cases h
  · rename_i hmax
    cases h
    exact ⟨rfl, not_le.mp hmax⟩

theorem newRecord_storable {c : Circumstances} {value : StoreRecordInput}
    {options : List WriteOption} {input : StoreRecordInputSnapshot} {selected : WriteOptions}
    (h : admitWrite c value options = .ok (input, selected)) (revision : ℕ)
    (expiresAt : Option Timestamp) :
  Storable (revision + 1) (newRecord input (revision + 1) expiresAt)
  := by
  simp only [admitWrite, bind_eq_ok, Except.ok.injEq, Prod.mk.injEq] at h
  obtain ⟨_, -, _, -, key, hkey, _, hvalue, _, -, _, -, rfl, -⟩ := h
  have hdecimal := JsString.decimalValue_ofNat (revision + 1)
  constructor
  · apply JsString.isDecimal_ofNat
  · simp only [newRecord, revisionText, hdecimal]
    omega
  · simp only [newRecord, revisionText, hdecimal]
    exact le_rfl
  · obtain ⟨hval, hbytes⟩ := storeKey_eq hkey
    rw [hval] at hbytes
    exact hbytes
  · rw [checkValue] at hvalue
    split at hvalue
    · cases hvalue
    · rename_i hle
      exact not_lt.mp hle

/-- Every operation has one of the effects. -/
theorem serve_effect {s : FileState} (hkeyed : Keyed s.records) (q : Request) :
  Effect digest s q.circumstances.now (StoreM.exec (serve digest q) s)
  := by
  obtain ⟨c, call⟩ := q
  cases call with
  | read key =>
      simp only [serve, exec_map, exec_read]
      apply Effect.map
      apply after_outcome s .unchanged
      intro selectedKey _
      split
      · apply Effect.purged
      · apply Effect.purged
  | write value options =>
      simp only [serve, exec_map, exec_write]
      apply Effect.map
      apply after_outcome s .unchanged
      rintro ⟨input, selected⟩ hvalid
      have failed : ∀ e, Effect (α := StoreRecord) digest s c.now (.error e, s.purged c.now) :=
        fun e => .purged _
      simp only
      split
      · apply failed
      · rename_i hnot
        apply after_outcome _ failed
        intro _ _
        apply after_outcome _ failed
        intro revision hrevision
        obtain ⟨rfl, hmax⟩ := nextRevision_eq_ok hrevision
        apply after_outcome _ failed
        intro expiresAt _
        apply after_outcome _ failed
        intro _ _
        apply Effect.changed _ _ hnot hmax
        intro key r hr
        by_cases hkey : key = input.key
        · subst hkey
          rw [AList.lookup_insert] at hr
          cases hr
          exact .inr ⟨rfl, newRecord_storable hvalid _ _⟩
        · rw [AList.lookup_insert_ne hkey] at hr
          exact .inl hr
  | delete key options =>
      simp only [serve, exec_map, exec_delete]
      apply Effect.map
      apply after_outcome s .unchanged
      rintro ⟨selectedKey, selected⟩ _
      have failed : ∀ e, Effect (α := Bool) digest s c.now (.error e, s.purged c.now) :=
        fun e => .purged _
      simp only
      split
      · apply failed
      · rename_i hnot
        apply after_outcome _ failed
        intro _ _
        split
        · split
          · apply after_outcome _ failed
            intro _ _
            exact .flushed _ hnot
          · apply Effect.purged
        · apply after_outcome _ failed
          intro revision hrevision
          obtain ⟨rfl, hmax⟩ := nextRevision_eq_ok hrevision
          apply after_outcome _ failed
          intro _ _
          apply Effect.changed _ _ hnot hmax
          intro key r hr
          by_cases hkey : key = selectedKey
          · subst hkey
            rw [AList.lookup_erase] at hr
            cases hr
          · rw [AList.lookup_erase_ne hkey] at hr
            exact .inl hr
  | list options =>
      simp only [serve, exec_map, exec_list s hkeyed]
      apply Effect.map
      apply after_outcome s .unchanged
      intro selected _
      split
      · apply Effect.purged
      · apply after_outcome _ (fun e => .purged _)
        intro offset _
        split
        · apply Effect.purged
        · apply Effect.purged

/-- An operation that throws leaves the state as it was, apart from the removal of the
expired records from memory. -/
theorem next_of_error {s : FileState} (hkeyed : Keyed s.records) {q : Request} {e : StoreError}
    (he : (StoreM.exec (serve digest q) s).1 = .error e) :
  next digest s q = s ∨ next digest s q = s.purged q.circumstances.now
  := by
  have heffect := serve_effect digest hkeyed q
  rw [next]
  cases houtcome : StoreM.exec (serve digest q) s with
  | mk outcome s' =>
      rw [houtcome] at heffect he
      cases heffect with
      | unchanged e => exact .inl rfl
      | purged outcome => exact .inr rfl
      | flushed | changed => cases he

end Store.File
