import GoLike.Store.Options

/-!
# The table of records

The providers that hold their records in memory keep them in a map from keys to records.
This module has what they do with this map: find and remove the expired records, check the
condition of a write or a delete, and list the records whose keys begin with a text.
-/

namespace Store

/-- The records of a provider, by key. -/
abbrev Records : Type := AList (fun _ : Key => StoreRecord)

/-! ### Expiry -/

/-- The record has expired. -/
def expired (now : Timestamp) (record : StoreRecord) : Bool :=
  match record.expiresAt with
  | none => false
  | some expiresAt => expiresAt ≤ now

/-- A record that has expired stays expired. -/
theorem expired_of_le {now later : Timestamp} {record : StoreRecord} (hle : now ≤ later)
    (h : expired now record = true) :
  expired later record = true
  := by
  rw [expired] at h ⊢
  split
  · rename_i hnone
    rw [hnone] at h
    cases h
  · rename_i t ht
    rw [ht] at h
    apply decide_eq_true
    apply le_trans (of_decide_eq_true h) hle

/-- The keys of the records that have expired. -/
def expiredKeys (records : Records) (now : Timestamp) : List Key :=
  (records.entries.filter (fun entry => expired now entry.2)).map Sigma.fst

/-- The records without those of the listed keys. -/
def removeAll (records : Records) (keys : List Key) : Records :=
  keys.foldl (fun remaining key => remaining.erase key) records

/-- The visible record of a key. -/
def visible (records : Records) (now : Timestamp) (key : Key) : Option StoreRecord :=
  (records.lookup key).filter (fun record => !expired now record)

theorem visible_eq_some {records : Records} {now : Timestamp} {key : Key} {r : StoreRecord} :
  visible records now key = some r ↔ records.lookup key = some r ∧ expired now r = false
  := by
  rw [visible, Option.filter_eq_some_iff]
  simp

theorem mem_expiredKeys {records : Records} {now : Timestamp} {key : Key} :
  key ∈ expiredKeys records now ↔ ∃ r, records.lookup key = some r ∧ expired now r = true
  := by
  simp only [expiredKeys, List.mem_map, List.mem_filter]
  constructor
  · rintro ⟨⟨k, r⟩, ⟨hmem, hexp⟩, rfl⟩
    exact ⟨r, AList.mem_lookup_iff.mpr hmem, hexp⟩
  · rintro ⟨r, hr, hexp⟩
    exact ⟨⟨key, r⟩, ⟨AList.mem_lookup_iff.mp hr, hexp⟩, rfl⟩

theorem lookup_removeAll (records : Records) (keys : List Key) (key : Key) :
  (removeAll records keys).lookup key = if key ∈ keys then none else records.lookup key
  := by
  induction keys generalizing records with
  | nil => rfl
  | cons k keys ih =>
      have hstep : removeAll records (k :: keys) = removeAll (records.erase k) keys := rfl
      rw [hstep, ih]
      by_cases hk : key = k
      · subst hk
        simp
      · simp [hk, AList.lookup_erase_ne hk]

/-- Without its expired records a table holds the visible ones. -/
theorem lookup_removeAll_expiredKeys (records : Records) (now : Timestamp) (key : Key) :
  (removeAll records (expiredKeys records now)).lookup key = visible records now key
  := by
  rw [lookup_removeAll, visible]
  cases hl : records.lookup key with
  | none => simp
  | some r =>
      have hiff : key ∈ expiredKeys records now ↔ expired now r = true := by
        rw [mem_expiredKeys, hl]
        simp
      by_cases hexp : expired now r = true
      · simp [hiff, hexp, Option.filter]
      · simp [hiff, hexp, Option.filter]

/-- What is visible at a key later is visible there when only the record visible now is
kept. -/
theorem visible_of_lookup {records records' : Records} {now later : Timestamp} {key : Key}
    (h : records'.lookup key = visible records now key) (hle : now ≤ later) :
  visible records' later key = visible records later key
  := by
  rw [visible, h, visible, visible, Option.filter_filter]
  congr 1
  funext r
  cases hexp : expired now r with
  | false => simp
  | true => simp [expired_of_le hle hexp]

/-! ### Conditions -/

/-- Check the condition of a write against the current record. -/
def checkWrite (key : Key) (resolved : WriteOptions) (current : Option StoreRecord) :
    Except StoreError Unit :=
  match resolved.ifAbsent, current with
  | true, some record => .error (newStoreConflictError key none (some record.revision))
  | _, _ =>
      match resolved.ifRevision with
      | none => .ok ()
      | some r =>
          if current.map StoreRecord.revision = some r then .ok ()
          else .error (newStoreConflictError key (some r) (current.map StoreRecord.revision))

/-- Check the condition of a delete against the current record. -/
def checkDelete (key : Key) (resolved : DeleteOptions) (current : Option StoreRecord) :
    Except StoreError Unit :=
  match resolved.ifRevision with
  | none => .ok ()
  | some r =>
      if current.map StoreRecord.revision = some r then .ok ()
      else .error (newStoreConflictError key (some r) (current.map StoreRecord.revision))

/-! ### Listings -/

/-- The records whose keys begin with a text, in the order of their keys. -/
def matching (records : Records) (keyPrefix : JsString) : List StoreRecord :=
  sortByKey StoreRecord.key
    ((records.entries.map Sigma.snd).filter (fun record => record.key.val.startsWith keyPrefix))

/-- Every record is stored under its key. -/
def Keyed (records : Records) : Prop :=
  ∀ key r, records.lookup key = some r → r.key = key

theorem mem_matching {records : Records} (hkeyed : Keyed records) {keyPrefix : JsString}
    {r : StoreRecord} :
  r ∈ matching records keyPrefix ↔
    records.lookup r.key = some r ∧ r.key.val.startsWith keyPrefix = true
  := by
  simp only [matching, mem_sortByKey, List.mem_filter, List.mem_map]
  constructor
  · rintro ⟨⟨⟨k, r'⟩, hmem, rfl⟩, hstart⟩
    have hl : records.lookup k = some r' := AList.mem_lookup_iff.mpr hmem
    have hk : r'.key = k := hkeyed k r' hl
    subst hk
    exact ⟨hl, hstart⟩
  · rintro ⟨hl, hstart⟩
    exact ⟨⟨⟨r.key, r⟩, AList.mem_lookup_iff.mp hl, rfl⟩, hstart⟩

theorem matching_sorted {records : Records} (hkeyed : Keyed records) (keyPrefix : JsString) :
  SortedByKey StoreRecord.key (matching records keyPrefix)
  := by
  apply sortedByKey_sortByKey
  have hkeys : (records.entries.map Sigma.fst).Nodup := records.nodupKeys
  have hsame : records.entries.map (fun entry => entry.2.key) =
      records.entries.map Sigma.fst := by
    apply List.map_congr_left
    rintro ⟨k, r⟩ hmem
    exact hkeyed k r (AList.mem_lookup_iff.mpr hmem)
  rw [← hsame] at hkeys
  have hall : ((records.entries.map Sigma.snd).map (fun r => r.key.val)).Nodup := by
    rw [List.map_map]
    have hvals := hkeys.map Subtype.val_injective
    rwa [List.map_map] at hvals
  exact (List.filter_sublist.map _).nodup hall

/-- Tables with the same records have the same listings. -/
theorem matching_congr {records records' : Records} (hkeyed : Keyed records)
    (h : ∀ key, records'.lookup key = records.lookup key) (keyPrefix : JsString) :
  matching records' keyPrefix = matching records keyPrefix
  := by
  have hkeyed' : Keyed records' := by
    intro key r hr
    rw [h] at hr
    exact hkeyed key r hr
  apply SortedByKey.eq_of_mem_iff StoreRecord.key (matching_sorted hkeyed' keyPrefix)
    (matching_sorted hkeyed keyPrefix)
  intro r
  rw [mem_matching hkeyed', mem_matching hkeyed, h]

/-- The page of at most `count` records of a listing that starts at an offset, with the
cursor of the offset after it unless the listing ends there. -/
def pageFrom (listing : List StoreRecord) (offset count : ℕ) (cursorAt : ℕ → JsonText) :
    StorePage :=
  let pageRecords := (listing.drop offset).take count
  let nextOffset := offset + pageRecords.length
  { records := pageRecords
    cursor := if nextOffset < listing.length then some (cursorAt nextOffset) else none }

/-- A page of a sorted listing is its own snapshot. -/
theorem snapshotStorePage_pageFrom {listing : List StoreRecord}
    (hsorted : SortedByKey StoreRecord.key listing) (offset count : ℕ) {cursorAt : ℕ → JsonText}
    (hexact : ∀ n, (cursorAt n).exact = true) :
  snapshotStorePage (pageFrom listing offset count cursorAt) =
    .ok (pageFrom listing offset count cursorAt)
  := by
  apply snapshotStorePage_eq
  · exact List.Pairwise.sublist ((List.take_sublist _ _).trans (List.drop_sublist _ _)) hsorted
  · intro cursor hcursor
    rw [pageFrom, Option.mem_def, ite_eq_iff] at hcursor
    obtain ⟨-, hcursor⟩ | ⟨-, hcursor⟩ := hcursor
    · cases hcursor
      apply hexact
    · cases hcursor

end Store
