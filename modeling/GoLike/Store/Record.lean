import GoLike.Lib.Json
import Mathlib.Data.List.AList

/-!
# The records and options of a Store

What the providers of a Store share: the validation of caller-supplied strings and
numbers, the snapshots of records, and the reduction of write, delete and list options.
A validated value is an element of a subtype, so that it need not be validated again.
-/

namespace Store

/-! ### Errors -/

/-- A value thrown by code of the caller: the cause of a cancellation, or what a clock, a
host or an option reducer throws. -/
structure Failure where
  message : String
  deriving DecidableEq

/-- A string that is well formed, and not empty when `nonEmpty` is set. -/
abbrev ExactString (nonEmpty : Bool) : Type :=
  {s : JsString // s.isWellFormed = true ∧ (nonEmpty = true → s.isEmpty = false)}

/-- A key of a Store, or one of its revisions. -/
abbrev Key : Type := ExactString true

/-- A failed conditional write or delete. The caller expected the revision
`expectedRevision`, or no record when it is `none`, and met `actualRevision`. -/
structure StoreConflictError where
  key : Key
  expectedRevision : Option Key
  actualRevision : Option Key
  deriving DecidableEq

/-- The text of a conflict, which the key follows. -/
def StoreConflictError.messageText (e : StoreConflictError) : String :=
  match e.expectedRevision with
  | none => "Store conditional write conflict for key "
  | some _ => "Store compare-and-swap conflict for key "

/-- What an operation of a Store throws. -/
inductive StoreError where
  | failure (f : Failure)
  | typeError (message : String)
  | rangeError (message : String)
  | conflict (e : StoreConflictError)
  deriving DecidableEq

/-- The conflict of a caller that expected one revision and met another. -/
def newStoreConflictError (key : Key) (expectedRevision actualRevision : Option Key) :
    StoreError :=
  .conflict ⟨key, expectedRevision, actualRevision⟩

/-! ### Contexts -/

/-- A context, with its error and the cause of its cancellation. -/
structure Context where
  err : Option Failure
  cause : Option Failure
  deriving DecidableEq

/-- The context that is never canceled. -/
def background : Context := ⟨none, none⟩

/-- The cancellation a terminal context carries. -/
def contextFailure (ctx : Context) : Option Failure :=
  match ctx.err with
  | none => none
  | some failure => some (ctx.cause.getD failure)

/-- Reject an operation whose context is terminal. -/
def checkContext (ctx : Context) : Except StoreError Unit :=
  match contextFailure ctx with
  | some failure => .error (.failure failure)
  | none => .ok ()

/-! ### Validation -/

/-- A sequence of two validations succeeds when both do. -/
theorem bind_eq_ok {ε α β : Type} {v : Except ε α} {f : α → Except ε β} {b : β} :
  (v >>= f) = .ok b ↔ ∃ a, v = .ok a ∧ f a = .ok b
  := by
  cases v with
  | error | ok => simp [bind, Except.bind]

/-- Validate a string. -/
def exactString (value : JsString) (name : String) (nonEmpty : Bool) :
    Except StoreError (ExactString nonEmpty) :=
  if h : value.isWellFormed = true ∧ (nonEmpty = true → value.isEmpty = false) then
    .ok ⟨value, h⟩
  else .error (.typeError (name ++ " must be a well-formed string"))

@[simp]
theorem exactString_val {nonEmpty : Bool} (s : ExactString nonEmpty) (name : String) :
  exactString s.val name nonEmpty = .ok s
  := by
  rw [exactString, dif_pos s.property]

/-- A positive safe integer. -/
abbrev PositiveInteger : Type := {n : ℕ // 0 < n ∧ n ≤ JsNumber.MaxSafeInteger}

/-- Validate a positive safe integer. -/
def positiveInteger (value : JsNumber) (name : String) : Except StoreError PositiveInteger :=
  match value.toSafeNat? with
  | none => .error (.rangeError (name ++ " must be a positive safe integer"))
  | some n =>
      if h : 0 < n ∧ n ≤ JsNumber.MaxSafeInteger then .ok ⟨n, h⟩
      else .error (.rangeError (name ++ " must be a positive safe integer"))

/-- A time in milliseconds, a safe integer. -/
abbrev Timestamp : Type := {n : ℕ // n ≤ JsNumber.MaxSafeInteger}

/-- A time value of the language, which is at most 8640000000000000 milliseconds. -/
abbrev TimeValue : Type := {n : ℕ // n ≤ 8640000000000000}

/-- A time value is a safe integer. -/
def TimeValue.timestamp (t : TimeValue) : Timestamp := ⟨t.val, t.property.trans (by decide)⟩

/-- Validate a safe integer between zero and the largest one. -/
def safeInteger (value : JsNumber) (name : String) : Except StoreError Timestamp :=
  match h : value.toSafeNat? with
  | none =>
      .error (.rangeError (name ++ " must be a safe integer from 0 through 9007199254740991"))
  | some n => .ok ⟨n, JsNumber.le_of_toSafeNat? h⟩

theorem safeInteger_ofNat (n : Timestamp) (name : String) :
  safeInteger (JsNumber.ofNat n.val) name = .ok n
  := by
  have h := JsNumber.toSafeNat?_ofNat n.property
  rw [safeInteger]
  split
  · rename_i h'
    rw [h] at h'
    cases h'
  · rename_i m h'
    rw [h] at h'
    cases h'
    rfl

/-- Apply a validation to a value unless the value is null. -/
def nullable {α β : Type} (validate : α → Except StoreError β) :
    Option α → Except StoreError (Option β)
  | none => .ok none
  | some a => some <$> validate a

/-! ### The order of keys -/

/-- Compare two sequences of code points from left to right. -/
def comparePoints : List ℕ → List ℕ → Ordering
  | [], [] => .eq
  | _ :: _, [] => .gt
  | [], _ :: _ => .lt
  | leftPoint :: left, rightPoint :: right =>
      if leftPoint < rightPoint then .lt
      else if leftPoint > rightPoint then .gt
      else comparePoints left right

/-- Compare two strings lexicographically by code point. -/
def compareStoreKeys {m n : Bool} (left : ExactString m) (right : ExactString n) : Ordering :=
  comparePoints left.val.codePoints right.val.codePoints

theorem comparePoints_eq (l r : List ℕ) :
  comparePoints l r = compareOfLessAndEq l r
  := by
  induction l, r using comparePoints.induct with
  | case1 => rfl
  | case2 | case3 => simp [comparePoints, compareOfLessAndEq]
  | case4 a l b r h => simp [comparePoints, compareOfLessAndEq, List.cons_lt_cons_iff, h]
  | case5 a l b r h h' =>
      have hne : a ≠ b := by omega
      simp [comparePoints, compareOfLessAndEq, List.cons_lt_cons_iff, h, h', hne]
  | case6 a l b r h h' ih =>
      have hab : a = b := by omega
      subst hab
      rw [comparePoints, if_neg h, if_neg h', ih]
      simp [compareOfLessAndEq]

/-- Keys are compared as the strings they are. -/
theorem compareStoreKeys_eq {m n : Bool} (l : ExactString m) (r : ExactString n) :
  compareStoreKeys l r = compareOfLessAndEq l.val r.val
  := by
  rw [compareStoreKeys, comparePoints_eq]
  simp only [compareOfLessAndEq, JsString.lt_iff, JsString.codePoints_injective.eq_iff]

theorem isLE_compareStoreKeys {m n : Bool} (l : ExactString m) (r : ExactString n) :
  (compareStoreKeys l r).isLE = true ↔ l.val ≤ r.val
  := by
  rw [compareStoreKeys_eq, compareOfLessAndEq]
  split
  · rename_i h
    simp [Ordering.isLE, h.le]
  · rename_i h
    split
    · rename_i h'
      simp [Ordering.isLE, h'.le]
    · rename_i h'
      have hlt := lt_of_le_of_ne (not_lt.mp h) (Ne.symm h')
      simp [Ordering.isLE, hlt]

/-! ### Sorting by key -/

section Sorting

variable {α : Type} {n : Bool} (key : α → ExactString n)

/-- Sort a list by the keys of its elements, keeping the order of equal keys. -/
def sortByKey (l : List α) : List α :=
  l.insertionSort (fun a b => (compareStoreKeys (key a) (key b)).isLE = true)

theorem sortByKey_perm (l : List α) :
  (sortByKey key l).Perm l
  := List.perm_insertionSort _ l

@[simp]
theorem mem_sortByKey {l : List α} {a : α} :
  a ∈ sortByKey key l ↔ a ∈ l
  := (sortByKey_perm key l).mem_iff

@[simp]
theorem length_sortByKey (l : List α) :
  (sortByKey key l).length = l.length
  := (sortByKey_perm key l).length_eq

/-- The elements are in strictly increasing order of their keys. -/
def SortedByKey (l : List α) : Prop :=
  l.Pairwise (fun a b => (key a).val < (key b).val)

/-- A list whose keys are distinct is sorted strictly. -/
theorem sortedByKey_sortByKey {l : List α} (h : (l.map (fun a => (key a).val)).Nodup) :
  SortedByKey key (sortByKey key l)
  := by
  let r : α → α → Prop := fun a b => (compareStoreKeys (key a) (key b)).isLE = true
  have total : Std.Total r :=
    ⟨fun a b => by
      simp only [r, isLE_compareStoreKeys]
      apply le_total⟩
  have trans : IsTrans α r :=
    ⟨fun a b c => by
      simp only [r, isLE_compareStoreKeys]
      apply le_trans⟩
  have hle : (sortByKey key l).Pairwise r := List.pairwise_insertionSort r l
  have hne : (sortByKey key l).Pairwise (fun a b => (key a).val ≠ (key b).val) := by
    rw [← List.pairwise_map (f := fun a => (key a).val) (R := (· ≠ ·))]
    apply ((sortByKey_perm key l).map _).nodup_iff.mpr h
  refine (hle.and hne).imp ?_
  rintro a b ⟨h, h'⟩
  apply lt_of_le_of_ne ((isLE_compareStoreKeys _ _).mp h) h'

/-- Sorting a sorted list changes nothing. -/
theorem sortByKey_eq {l : List α} (h : SortedByKey key l) :
  sortByKey key l = l
  := by
  apply List.Pairwise.insertionSort_eq
  refine h.imp ?_
  intro a b hab
  apply (isLE_compareStoreKeys _ _).mpr hab.le

/-- Sorted lists with the same elements are the same list. -/
theorem SortedByKey.eq_of_mem_iff {l l' : List α} (h : SortedByKey key l)
    (h' : SortedByKey key l') (hmem : ∀ a, a ∈ l ↔ a ∈ l') :
  l = l'
  := by
  have hnodup : ∀ {m : List α}, SortedByKey key m → m.Nodup := by
    intro m hm
    refine List.Pairwise.imp ?_ hm
    intro a b hab heq
    rw [heq] at hab
    apply lt_irrefl _ hab
  have hperm : l.Perm l' := (List.perm_ext_iff_of_nodup (hnodup h) (hnodup h')).mpr hmem
  apply hperm.eq_of_pairwise _ h h'
  intro a b _ _ hab hba
  exact absurd (hab.trans hba) (lt_irrefl _)

end Sorting

/-! ### Records -/

/-- The own properties of a plain object whose values are strings. -/
abbrev StringRecord : Type := AList (fun _ : JsString => JsString)

/-- One property of a validated metadata object. -/
abbrev MetadataEntry : Type := ExactString false × ExactString false

/-- The metadata of a record: well-formed strings, in strictly increasing order of keys. -/
structure Metadata where
  entries : List MetadataEntry
  sorted : SortedByKey Prod.fst entries
  deriving DecidableEq

/-- Validate one property of a metadata object. -/
def copyEntry (entry : Σ _ : JsString, JsString) : Except StoreError MetadataEntry := do
  let key ← exactString entry.1 "Store metadata key" false
  let value ← exactString entry.2 "Store metadata value" false
  .ok (key, value)

/-- Validate the properties of a metadata object in order. -/
def copyEntries : List (Σ _ : JsString, JsString) → Except StoreError (List MetadataEntry)
  | [] => .ok []
  | entry :: rest => do
      let copied ← copyEntry entry
      let others ← copyEntries rest
      .ok (copied :: others)

theorem exactString_eq_ok {nonEmpty : Bool} {s : JsString} {name : String}
    {v : ExactString nonEmpty} :
  exactString s name nonEmpty = .ok v ↔ v.val = s
  := by
  constructor
  · intro h
    rw [exactString] at h
    split at h
    · cases h
      rfl
    · cases h
  · rintro rfl
    apply exactString_val

theorem copyEntry_eq_ok {entry : Σ _ : JsString, JsString} {e : MetadataEntry} :
  copyEntry entry = .ok e ↔ e.1.val = entry.1 ∧ e.2.val = entry.2
  := by
  rw [copyEntry]
  simp only [bind_eq_ok, exactString_eq_ok, Except.ok.injEq]
  constructor
  · rintro ⟨k, hk, v, hv, rfl⟩
    exact ⟨hk, hv⟩
  · rintro ⟨hk, hv⟩
    exact ⟨e.1, hk, e.2, hv, rfl⟩

/-- A validated list of properties lists the strings of the given ones. -/
theorem map_of_copyEntries {l : List (Σ _ : JsString, JsString)} {es : List MetadataEntry}
    (h : copyEntries l = .ok es) :
  l = es.map (fun e => ⟨e.1.val, e.2.val⟩)
  := by
  induction l generalizing es with
  | nil =>
      cases h
      rfl
  | cons entry rest ih =>
      rw [copyEntries] at h
      simp only [bind_eq_ok, copyEntry_eq_ok, Except.ok.injEq] at h
      obtain ⟨e, ⟨hk, hv⟩, others, hothers, rfl⟩ := h
      rw [List.map_cons, ← ih hothers, hk, hv]

theorem copyEntries_map (es : List MetadataEntry) :
  copyEntries (es.map (fun e => ⟨e.1.val, e.2.val⟩)) = .ok es
  := by
  induction es with
  | nil => rfl
  | cons e es ih =>
      have he : copyEntry ⟨e.1.val, e.2.val⟩ = .ok e := copyEntry_eq_ok.mpr ⟨rfl, rfl⟩
      simp [copyEntries, he, ih, bind, Except.bind]

theorem keys_nodup_of_copyEntries {value : StringRecord} {es : List MetadataEntry}
    (h : copyEntries value.entries = .ok es) :
  (es.map (fun e => e.1.val)).Nodup
  := by
  have hkeys := value.nodupKeys
  rw [List.NodupKeys, List.keys, map_of_copyEntries h, List.map_map] at hkeys
  exact hkeys

/-- Copy a metadata object and sort its properties. -/
def snapshotMetadata (value : StringRecord) : Except StoreError Metadata :=
  match h : copyEntries value.entries with
  | .error e => .error e
  | .ok copied =>
      .ok ⟨sortByKey Prod.fst copied, sortedByKey_sortByKey _ (keys_nodup_of_copyEntries h)⟩

/-- The plain object of a metadata. -/
def Metadata.toObject (m : Metadata) : StringRecord where
  entries := m.entries.map (fun e => ⟨e.1.val, e.2.val⟩)
  nodupKeys := by
    rw [List.NodupKeys, List.keys, List.map_map, List.Nodup, List.pairwise_map]
    refine m.sorted.imp ?_
    intro a b hab heq
    exact absurd heq hab.ne

/-- A snapshot of a snapshot of metadata is the snapshot itself. -/
@[simp]
theorem snapshotMetadata_toObject (m : Metadata) :
  snapshotMetadata m.toObject = .ok m
  := by
  rw [snapshotMetadata]
  split
  · rename_i e h
    rw [Metadata.toObject, copyEntries_map] at h
    cases h
  · rename_i copied h
    rw [Metadata.toObject, copyEntries_map] at h
    cases h
    congr 1
    obtain ⟨entries, hs⟩ := m
    simp only [Metadata.mk.injEq]
    apply sortByKey_eq _ hs

/-- The input of a write. -/
structure StoreRecordInput where
  key : JsString
  value : List UInt8
  metadata : Option StringRecord

/-- A validated input of a write. -/
structure StoreRecordInputSnapshot where
  key : Key
  value : List UInt8
  metadata : Metadata

/-- Validate the input of a write. -/
def snapshotStoreRecordInput (record : StoreRecordInput) :
    Except StoreError StoreRecordInputSnapshot := do
  let metadata ← snapshotMetadata (record.metadata.getD ∅)
  let key ← exactString record.key "Store record input key" true
  .ok ⟨key, record.value, metadata⟩

/-- A record, before it is validated. -/
structure StoreRecordCandidate where
  key : JsString
  value : List UInt8
  metadata : StringRecord
  revision : JsString
  expiresAt : Option JsNumber

/-- A record of a Store. -/
structure StoreRecord where
  key : Key
  value : List UInt8
  metadata : Metadata
  revision : Key
  expiresAt : Option Timestamp
  deriving DecidableEq

/-- Validate a record. -/
def snapshotStoreRecord (record : StoreRecordCandidate) : Except StoreError StoreRecord := do
  let expiresAt ← nullable (safeInteger · "Store record expiresAt") record.expiresAt
  let key ← exactString record.key "Store record key" true
  let metadata ← snapshotMetadata record.metadata
  let revision ← exactString record.revision "Store record revision" true
  .ok ⟨key, record.value, metadata, revision, expiresAt⟩

/-- The fields of a record, as a candidate for a record. -/
def StoreRecord.toCandidate (r : StoreRecord) : StoreRecordCandidate where
  key := r.key.val
  value := r.value
  metadata := r.metadata.toObject
  revision := r.revision.val
  expiresAt := r.expiresAt.map (fun n => JsNumber.ofNat n.val)

/-- A snapshot of a record is the record itself. -/
@[simp]
theorem snapshotStoreRecord_toCandidate (r : StoreRecord) :
  snapshotStoreRecord r.toCandidate = .ok r
  := by
  have hexp : nullable (safeInteger · "Store record expiresAt") r.toCandidate.expiresAt =
      .ok r.expiresAt := by
    rw [StoreRecord.toCandidate]
    cases r.expiresAt with
    | none => rfl
    | some n =>
        rw [Option.map_some, nullable, safeInteger_ofNat]
        rfl
  rw [snapshotStoreRecord, hexp]
  simp [StoreRecord.toCandidate, bind, Except.bind]

/-- The decimal text of a revision. -/
def revisionText (n : ℕ) : Key :=
  ⟨JsString.ofNat n, JsString.isWellFormed_ofNat n, fun _ => JsString.isEmpty_ofNat n⟩

/-- Different revisions have different texts. -/
theorem revisionText_injective :
  Function.Injective revisionText
  := by
  intro m n h
  apply JsString.ofNat_injective
  exact congrArg Subtype.val h

/-! ### Pages -/

/-- A page of a listing, with the text that resumes the listing after it. -/
structure StorePage where
  records : List StoreRecord
  cursor : Option JsonText

/-- Validate the records of a page in order, rejecting a repeated key. -/
def snapshotPageRecords (seen : List Key) : List StoreRecord →
    Except StoreError (List StoreRecord)
  | [] => .ok []
  | record :: rest => do
      let snapshot ← snapshotStoreRecord record.toCandidate
      if snapshot.key ∈ seen then
        .error (.typeError "Store page record keys must be unique")
      else
        let others ← snapshotPageRecords (snapshot.key :: seen) rest
        .ok (snapshot :: others)

/-- Validate the text of a cursor. -/
def exactCursor (value : JsonText) (name : String) : Except StoreError JsonText :=
  if value.exact then .ok value
  else .error (.typeError (name ++ " must be a well-formed string"))

/-- Validate a page and sort its records. -/
def snapshotStorePage (page : StorePage) : Except StoreError StorePage := do
  let records ← snapshotPageRecords [] page.records
  let pageCursor ← nullable (exactCursor · "Store page cursor") page.cursor
  .ok ⟨sortByKey StoreRecord.key records, pageCursor⟩

theorem snapshotPageRecords_eq {seen : List Key} {l : List StoreRecord}
    (hseen : ∀ r ∈ l, r.key ∉ seen) (hnodup : (l.map StoreRecord.key).Nodup) :
  snapshotPageRecords seen l = .ok l
  := by
  induction l generalizing seen with
  | nil => rfl
  | cons r l ih =>
      simp only [List.map_cons, List.nodup_cons] at hnodup
      have hrest : ∀ x ∈ l, x.key ∉ r.key :: seen := by
        intro x hx hmem
        cases List.mem_cons.mp hmem with
        | inl heq =>
            apply hnodup.1
            rw [← heq]
            exact List.mem_map_of_mem hx
        | inr hmem => apply hseen x (List.mem_cons_of_mem _ hx) hmem
      simp [snapshotPageRecords, hseen r List.mem_cons_self, ih hrest hnodup.2, bind, Except.bind]

/-- A page in strictly increasing order of keys is its own snapshot. -/
theorem snapshotStorePage_eq {page : StorePage}
    (hsorted : SortedByKey StoreRecord.key page.records)
    (hcursor : ∀ c ∈ page.cursor, c.exact = true) :
  snapshotStorePage page = .ok page
  := by
  have hnodup : (page.records.map StoreRecord.key).Nodup := by
    rw [List.Nodup, List.pairwise_map]
    refine hsorted.imp ?_
    intro a b hab heq
    rw [heq] at hab
    apply lt_irrefl _ hab
  have hrecords : snapshotPageRecords [] page.records = .ok page.records :=
    snapshotPageRecords_eq (by simp) hnodup
  obtain ⟨records, cursor⟩ := page
  cases cursor with
  | none => simp_all [snapshotStorePage, nullable, bind, Except.bind, sortByKey_eq]
  | some c =>
      have hc : c.exact = true := hcursor c rfl
      simp_all [snapshotStorePage, nullable, exactCursor, bind, Except.bind, sortByKey_eq]

end Store
