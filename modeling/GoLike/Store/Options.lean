import GoLike.Store.Record

/-!
# The options of a Store

The options of a write, a delete and a list are reducers, applied in order to a default.
What a reducer returns is validated before the next one is applied, so the effective
options satisfy the invariants their types state.
-/

namespace Store

/-! ### Write options -/

/-- What a write option returns, before it is validated. -/
structure WriteOptionsCandidate where
  expiresInMs : Option JsNumber
  ifAbsent : Option Bool
  ifRevision : Option JsString

/-- The effective options of a write. -/
structure WriteOptions where
  expiresInMs : Option PositiveInteger
  ifAbsent : Bool
  ifRevision : Option Key
  exclusive : ifAbsent = true → ifRevision = none

/-- The default options of a write. -/
def DefaultWriteOptions : WriteOptions := ⟨none, false, none, fun _ => rfl⟩

/-- Validate the options of a write. -/
def snapshotWriteOptions (value : WriteOptionsCandidate) : Except StoreError WriteOptions := do
  let absent := value.ifAbsent.getD false
  let revision ← nullable (exactString · "Store ifRevision" true) value.ifRevision
  if h : absent = true → revision = none then
    let expiresInMs ← nullable (positiveInteger · "Store expiresInMs") value.expiresInMs
    .ok ⟨expiresInMs, absent, revision, h⟩
  else .error (.typeError "Store ifAbsent and ifRevision are mutually exclusive")

/-- A write option. -/
abbrev WriteOption : Type := WriteOptions → Except StoreError WriteOptionsCandidate

/-- The effective options of a write whose options are listed in order. -/
def writeOptions (options : List WriteOption) : Except StoreError WriteOptions :=
  options.foldlM (fun candidate option => do snapshotWriteOptions (← option candidate))
    DefaultWriteOptions

/-- The option that sets the lifetime of a record. -/
def expiresIn (valueMs : JsNumber) : Except StoreError WriteOption := do
  let captured ← positiveInteger valueMs "Store expiresInMs"
  .ok (fun options => .ok
    { expiresInMs := some (JsNumber.ofNat captured.val)
      ifAbsent := some options.ifAbsent
      ifRevision := options.ifRevision.map Subtype.val })

/-- The option that admits a write only while no visible record exists. -/
def ifAbsent : WriteOption :=
  fun options => .ok
    { expiresInMs := options.expiresInMs.map (fun n => JsNumber.ofNat n.val)
      ifAbsent := some true
      ifRevision := none }

/-- The option that admits a write only on the visible record of a revision. -/
def ifRevisionWrite (revision : JsString) : Except StoreError WriteOption := do
  let captured ← exactString revision "Store ifRevision" true
  .ok (fun options => .ok
    { expiresInMs := options.expiresInMs.map (fun n => JsNumber.ofNat n.val)
      ifAbsent := some false
      ifRevision := some captured.val })

/-! ### Delete options -/

/-- What a delete option returns, before it is validated. -/
structure DeleteOptionsCandidate where
  ifRevision : Option JsString

/-- The effective options of a delete. -/
structure DeleteOptions where
  ifRevision : Option Key

/-- The default options of a delete. -/
def DefaultDeleteOptions : DeleteOptions := ⟨none⟩

/-- Validate the options of a delete. -/
def snapshotDeleteOptions (value : DeleteOptionsCandidate) : Except StoreError DeleteOptions := do
  let revision ← nullable (exactString · "Store ifRevision" true) value.ifRevision
  .ok ⟨revision⟩

/-- A delete option. -/
abbrev DeleteOption : Type := DeleteOptions → Except StoreError DeleteOptionsCandidate

/-- The effective options of a delete whose options are listed in order. -/
def deleteOptions (options : List DeleteOption) : Except StoreError DeleteOptions :=
  options.foldlM (fun candidate option => do snapshotDeleteOptions (← option candidate))
    DefaultDeleteOptions

/-- The option that admits a delete only on the visible record of a revision. -/
def ifRevisionDelete (revision : JsString) : Except StoreError DeleteOption := do
  let captured ← exactString revision "Store ifRevision" true
  .ok (fun _ => .ok { ifRevision := some captured.val })

/-! ### List options -/

/-- What a list option returns, before it is validated. -/
structure ListOptionsCandidate where
  keyPrefix : JsString
  limit : Option JsNumber
  cursor : Option JsonText

/-- The effective options of a list. -/
structure ListOptions where
  keyPrefix : ExactString false
  limit : Option PositiveInteger
  cursor : Option JsonText

/-- The default options of a list. -/
def DefaultListOptions : ListOptions := ⟨⟨JsString.empty, rfl, nofun⟩, none, none⟩

/-- Validate the options of a list. -/
def snapshotListOptions (value : ListOptionsCandidate) : Except StoreError ListOptions := do
  let keyPrefix ← exactString value.keyPrefix "Store list prefix" false
  let limit ← nullable (positiveInteger · "Store list limit") value.limit
  let cursor ← nullable (exactCursor · "Store list cursor") value.cursor
  .ok ⟨keyPrefix, limit, cursor⟩

/-- A list option. -/
abbrev ListOption : Type := ListOptions → Except StoreError ListOptionsCandidate

/-- The effective options of a list whose options are listed in order. -/
def listOptions (options : List ListOption) : Except StoreError ListOptions :=
  options.foldlM (fun candidate option => do snapshotListOptions (← option candidate))
    DefaultListOptions

/-- Effective list options, as a candidate for list options. -/
def ListOptions.toCandidate (options : ListOptions) : ListOptionsCandidate where
  keyPrefix := options.keyPrefix.val
  limit := options.limit.map (fun n => JsNumber.ofNat n.val)
  cursor := options.cursor

/-- The option that restricts a list to the keys that begin with a text. -/
def withPrefix (value : JsString) : Except StoreError ListOption := do
  let captured ← exactString value "Store list prefix" false
  .ok (fun options => .ok { options.toCandidate with keyPrefix := captured.val })

/-- The option that bounds the number of records of a page. -/
def withLimit (count : JsNumber) : Except StoreError ListOption := do
  let captured ← positiveInteger count "Store list limit"
  .ok (fun options => .ok
    { options.toCandidate with limit := some (JsNumber.ofNat captured.val) })

/-- The option that resumes a listing at a cursor. -/
def withCursor (value : JsonText) : Except StoreError ListOption := do
  let captured ← exactCursor value "Store list cursor"
  .ok (fun options => .ok { options.toCandidate with cursor := some captured })

end Store
