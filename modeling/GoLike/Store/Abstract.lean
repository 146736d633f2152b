import GoLike.Lib.Versioned
import GoLike.Store.Table

/-!
# A Store as a versioned map

What a provider is for is to be a versioned map with expiry: from keys to contents, which
consist of a value and metadata. A table of records represents such a map from some time
on when it has the same visible records at that time and later.
-/

namespace Store

/-- The content of a record: its value and metadata. -/
abbrev Content : Type := List UInt8 × Metadata

/-- An entry of the versioned map of a Store. -/
abbrev Entry : Type := Versioned.Entry Content Timestamp Key

/-- The versioned map of a Store. -/
abbrev VersionedMap : Type := Versioned.VersionedMap Key Content Timestamp Key

/-- What is observed of one call of a Store. -/
abbrev Event : Type := Versioned.Event Key Content Timestamp Key

/-- The record of an entry at a key. -/
def toRecord (key : Key) (e : Entry) : StoreRecord :=
  ⟨key, e.content.1, e.content.2, e.revision, e.expiresAt⟩

/-- The entry of a record. -/
def ofRecord (r : StoreRecord) : Entry := ⟨(r.value, r.metadata), r.revision, r.expiresAt⟩

@[simp]
theorem toRecord_ofRecord (r : StoreRecord) :
  toRecord r.key (ofRecord r) = r
  := rfl

@[simp]
theorem expired_toRecord (now : Timestamp) (key : Key) (e : Entry) :
  expired now (toRecord key e) = !e.live now
  := by
  rw [expired, Versioned.Entry.live, toRecord]
  cases e.expiresAt with
  | none => rfl
  | some t => simp [← not_lt]

theorem map_revision_toRecord (key : Key) (current : Option Entry) :
  (current.map (toRecord key)).map StoreRecord.revision = current.map Versioned.Entry.revision
  := by
  rw [Option.map_map]
  rfl

/-! ### Conditions -/

/-- The condition of a conditional delete, or of a conditional write other than on absence. -/
def revisionCondition : Option Key → Versioned.Condition Key
  | none => .always
  | some r => .revision r

/-- The condition of a write. -/
def WriteOptions.condition (resolved : WriteOptions) : Versioned.Condition Key :=
  if resolved.ifAbsent = true then .absent else revisionCondition resolved.ifRevision

/-- The condition of a delete. -/
def DeleteOptions.condition (resolved : DeleteOptions) : Versioned.Condition Key :=
  revisionCondition resolved.ifRevision

theorem checkDelete_cases (key : Key) (resolved : DeleteOptions) (current : Option Entry) :
  (resolved.condition.Admits current ∧
      checkDelete key resolved (current.map (toRecord key)) = .ok ()) ∨
    (¬ resolved.condition.Admits current ∧
      checkDelete key resolved (current.map (toRecord key)) =
        .error (newStoreConflictError key resolved.ifRevision
          (current.map Versioned.Entry.revision)))
  := by
  rw [checkDelete, DeleteOptions.condition, map_revision_toRecord]
  cases resolved.ifRevision with
  | none => exact .inl ⟨trivial, rfl⟩
  | some r =>
      by_cases hr : current.map Versioned.Entry.revision = some r
      · exact .inl ⟨hr, by simp [hr]⟩
      · exact .inr ⟨hr, by simp [hr]⟩

theorem checkWrite_cases (key : Key) (resolved : WriteOptions) (current : Option Entry) :
  (resolved.condition.Admits current ∧
      checkWrite key resolved (current.map (toRecord key)) = .ok ()) ∨
    (¬ resolved.condition.Admits current ∧
      checkWrite key resolved (current.map (toRecord key)) =
        .error (newStoreConflictError key resolved.ifRevision
          (current.map Versioned.Entry.revision)))
  := by
  rw [WriteOptions.condition]
  cases habsent : resolved.ifAbsent with
  | true =>
      have hrev := resolved.exclusive habsent
      cases current with
      | none => exact .inl ⟨rfl, by simp [checkWrite, habsent, hrev]⟩
      | some e => exact .inr ⟨nofun, by simp [checkWrite, habsent, hrev, toRecord]⟩
  | false =>
      simp only [checkWrite, habsent, map_revision_toRecord, Bool.false_eq_true, if_false]
      cases resolved.ifRevision with
      | none => exact .inl ⟨trivial, rfl⟩
      | some r =>
          by_cases hr : current.map Versioned.Entry.revision = some r
          · exact .inl ⟨hr, by simp [hr]⟩
          · exact .inr ⟨hr, by simp [hr]⟩

/-! ### Representation -/

/-- The table, at a generation, represents the versioned map from `now` on. -/
structure Represents (records : Records) (revision : ℕ) (now : Timestamp) (m : VersionedMap) :
    Prop where
  issued : m.issued ≤ revision
  keyed : Keyed records
  visible : ∀ later, now ≤ later → ∀ key,
    visible records later key = (m.visible later key).map (toRecord key)

namespace Represents

variable {records records' : Records} {revision revision' : ℕ} {now : Timestamp}
  {m : VersionedMap}

theorem later (h : Represents records revision now m) {now' : Timestamp} (hle : now ≤ now') :
  Represents records revision now' m
  := ⟨h.issued, h.keyed, fun later hlater => h.visible later (hle.trans hlater)⟩

/-- The table without its expired records represents the same map. -/
theorem purge (h : Represents records revision now m) (hrevision : revision ≤ revision')
    (hlookup : ∀ key, records'.lookup key = Store.visible records now key) :
  Represents records' revision' now m
  := by
  constructor
  · exact h.issued.trans hrevision
  · intro key r hr
    rw [hlookup] at hr
    exact h.keyed key r (visible_eq_some.mp hr).1
  · intro later hlater key
    rw [visible_of_lookup (hlookup key) hlater, h.visible later hlater]

/-- Replacing the record of a key replaces the entry of the key. -/
theorem put (h : Represents records revision now m) {key : Key} {e : Entry}
    (hself : records'.lookup key = some (toRecord key e))
    (hother : ∀ j, j ≠ key → records'.lookup j = Store.visible records now j) :
  Represents records' revision' now (m.put key e revision')
  := by
  constructor
  · exact le_rfl
  · intro j r hr
    by_cases hj : j = key
    · subst hj
      rw [hself] at hr
      cases hr
      rfl
    · rw [hother j hj] at hr
      exact h.keyed j r (visible_eq_some.mp hr).1
  · intro later hlater j
    by_cases hj : j = key
    · subst hj
      simp only [Store.visible, hself, Versioned.VersionedMap.visible, Versioned.VersionedMap.put,
        Function.update_self]
      cases hlive : e.live later with
      | false | true => simp [Option.filter, hlive]
    · have hsame : (m.put key e revision').visible later j = m.visible later j := by
        simp [Versioned.VersionedMap.visible, Versioned.VersionedMap.put, hj]
      rw [hsame, ← h.visible later hlater, visible_of_lookup (hother j hj) hlater]

/-- Removing the record of a key removes the entry of the key. -/
theorem remove (h : Represents records revision now m) (hrevision : revision ≤ revision')
    {key : Key} (hself : records'.lookup key = none)
    (hother : ∀ j, j ≠ key → records'.lookup j = Store.visible records now j) :
  Represents records' revision' now (m.remove key)
  := by
  constructor
  · exact h.issued.trans hrevision
  · intro j r hr
    by_cases hj : j = key
    · subst hj
      rw [hself] at hr
      cases hr
    · rw [hother j hj] at hr
      exact h.keyed j r (visible_eq_some.mp hr).1
  · intro later hlater j
    by_cases hj : j = key
    · subst hj
      simp [Store.visible, hself, Versioned.VersionedMap.visible, Versioned.VersionedMap.remove]
    · have hsame : (m.remove key).visible later j = m.visible later j := by
        simp [Versioned.VersionedMap.visible, Versioned.VersionedMap.remove, hj]
      rw [hsame, ← h.visible later hlater, visible_of_lookup (hother j hj) hlater]

/-- The listing of a table that holds the visible records lists the visible entries. -/
theorem listing (h : Represents records revision now m)
    (hlookup : ∀ key, records'.lookup key = Store.visible records now key)
    (keyPrefix : JsString) :
  ∃ l : List (Key × Entry),
    matching records' keyPrefix = l.map (fun entry => toRecord entry.1 entry.2) ∧
    l.Pairwise (fun a b => a.1 < b.1) ∧
    ∀ key e, (key, e) ∈ l ↔ key.val.startsWith keyPrefix = true ∧ m.visible now key = some e
  := by
  have hkeyed : Keyed records' := (h.purge le_rfl hlookup).keyed
  have hvisible : ∀ key r, records'.lookup key = some r ↔
      ∃ e, m.visible now key = some e ∧ toRecord key e = r := by
    intro key r
    rw [hlookup, h.visible now le_rfl, Option.map_eq_some_iff]
  use (matching records' keyPrefix).map (fun r => (r.key, ofRecord r))
  refine ⟨?_, ?_, ?_⟩
  · rw [List.map_map]
    simp [Function.comp_def]
  · rw [List.pairwise_map]
    exact matching_sorted hkeyed keyPrefix
  · intro key e
    rw [List.mem_map]
    constructor
    · rintro ⟨r, hr, heq⟩
      cases heq
      obtain ⟨hl, hstart⟩ := (mem_matching hkeyed).mp hr
      obtain ⟨e, he, heq⟩ := (hvisible r.key r).mp hl
      refine ⟨hstart, ?_⟩
      rw [he, ← heq]
      rfl
    · rintro ⟨hstart, he⟩
      refine ⟨toRecord key e, ?_, rfl⟩
      rw [mem_matching hkeyed]
      exact ⟨(hvisible key _).mpr ⟨e, he, rfl⟩, hstart⟩

end Represents

end Store
