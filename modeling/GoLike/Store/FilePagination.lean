import GoLike.Store.FileDurability
import GoLike.Store.MemoryPagination

/-!
# Listing a File Store by pages

The generation of a File Store moves with every change of its records, except in two
situations. The removal of expired records from memory takes a generation that the snapshot
does not record, so that a store started from the snapshot can take it again for other
records. And when no generation is left, expired records are removed without one. Apart
from these situations the generation stamps the cursors.
-/

namespace Store.File

variable (digest : Json → Digest)

/-! ### The provider -/

/-- What can happen to a File Store: a call, or a stop followed by a start on its
directory. -/
inductive Action where
  | call (q : Request)
  | restart (c : StartCircumstances)

/-- What an action does to the state. -/
def Acts (s : FileState) : Action → FileState → Prop
  | .call q, s' => s' = next digest s q
  | .restart c, s' => start digest c s.file = .ok s'

/-- The File Store as a provider to which the allowed actions may happen. -/
def fileProvider (allowed : FileState → Action → Prop) : Provider where
  State := FileState
  Initial s := ∃ c file, start digest c file = .ok s
  records := FileState.records
  revision := FileState.revision
  Step s s' := ∃ action, allowed s action ∧ Acts digest s action s'
  Lists s now options page s' := ∃ c selected, Circumstances.now c = now ∧
    listOptions selected = .ok options ∧
    StoreM.exec (list c selected) s = (.ok page, s')

/-! ### Where the generation moves -/

/-- The call passes the validation of its arguments. -/
def Request.Admitted (q : Request) : Prop :=
  match q.call with
  | .read key => (admitRead q.circumstances key).isOk = true
  | .write value options => (admitWrite q.circumstances value options).isOk = true
  | .delete key options => (admitDelete q.circumstances key options).isOk = true
  | .list options => (admitList q.circumstances options).isOk = true

/-- The action moves the generation if it changes the records. A call must find a
generation left for the removal of expired records. A store must be started before expired
records are removed from memory only, or else the store that is started has to take the
generation in memory for the records in memory. -/
def MovesGeneration (s : FileState) : Action → Prop
  | .call q => q.Admitted → ¬ s.Exhausted q.circumstances.now
  | .restart c => s.dirtyExpiry = false ∨
      ∀ stored revision, Holds digest s.file stored revision →
        s.revision = revision + 1 ∧ ∀ key, visible stored c.now key = s.records.lookup key

variable {digest}

variable {s : FileState}

theorem after_of_not_isOk {α β : Type} {v : Except StoreError α} (h : ¬ v.isOk = true)
    (transition : α → Except StoreError β × FileState) :
  (after s v transition).2 = s
  := by
  cases v with
  | ok a => exact absurd rfl h
  | error e => rfl

theorem next_of_not_admitted (hs : Keyed s.records) {q : Request} (h : ¬ q.Admitted) :
  next digest s q = s
  := by
  obtain ⟨c, call⟩ := q
  cases call with
  | read key =>
      simp only [next, serve, exec_map, exec_read]
      exact after_of_not_isOk h _
  | write value options =>
      simp only [next, serve, exec_map, exec_write]
      exact after_of_not_isOk h _
  | delete key options =>
      simp only [next, serve, exec_map, exec_delete]
      exact after_of_not_isOk h _
  | list options =>
      simp only [next, serve, exec_map, exec_list s hs]
      exact after_of_not_isOk h _

/-! ### The generation and the file -/

/-- The table holds the records of another. -/
def SameRecords (records stored : Records) : Prop :=
  ∀ key, records.lookup key = stored.lookup key

/-- The table lacks a record of another. -/
def Lacks (records stored : Records) : Prop :=
  ∃ key r, stored.lookup key = some r ∧ records.lookup key = none

variable (digest) in
/-- The records in memory can be stored; they are those in the file, at its generation, or
expired records have been removed from memory only, at a later generation. -/
structure Stamped (s : FileState) : Prop where
  storable : StorableAll s.records s.revision
  file : ∃ stored revision, Holds digest s.file stored revision ∧
    (s.revision = revision ∧ SameRecords s.records stored ∨
      s.dirtyExpiry = true ∧ revision < s.revision ∧ Lacks s.records stored)

/-- The generation moves on, or the records are the same. -/
def Advances (s s' : FileState) : Prop :=
  s.revision < s'.revision ∨ (s'.revision = s.revision ∧ SameRecords s'.records s.records)

theorem advances_refl (s : FileState) :
  Advances s s
  := .inr ⟨rfl, fun _ => rfl⟩

variable {now : Timestamp}

/-- The removal of expired records takes a generation, unless nothing has expired or no
generation is left. -/
theorem purged_cases (h : ¬ s.Exhausted now) :
  s.purged now = s ∨
    ((s.purged now).revision = s.revision + 1 ∧ (s.purged now).dirtyExpiry = true ∧
      Lacks (s.purged now).records s.records)
  := by
  by_cases hnil : expiredKeys s.records now = []
  · rw [FileState.purged, if_pos hnil]
    exact .inl rfl
  · have hlacks : Lacks (s.purged now).records s.records := by
      obtain ⟨key, hkey⟩ := List.exists_mem_of_ne_nil _ hnil
      obtain ⟨r, hr, hexp⟩ := mem_expiredKeys.mp hkey
      refine ⟨key, r, hr, ?_⟩
      rw [lookup_purged, visible, hr]
      simp [Option.filter, hexp]
    rw [FileState.purged, if_neg hnil, if_neg (fun hmax => h ⟨hnil, hmax⟩)] at hlacks ⊢
    exact .inr ⟨rfl, rfl, hlacks⟩

/-- A record that is missing from a table is missing when its expired records are
removed. -/
theorem Lacks.purged {stored : Records} (h : Lacks s.records stored) (now : Timestamp) :
  Lacks (s.purged now).records stored
  := by
  obtain ⟨key, r, hr, hnone⟩ := h
  refine ⟨key, r, hr, ?_⟩
  rw [lookup_purged, visible, hnone]
  rfl

theorem Lacks.congr {records stored stored' : Records} (h : Lacks records stored)
    (hsame : SameRecords stored stored') :
  Lacks records stored'
  := by
  obtain ⟨key, r, hr, hnone⟩ := h
  exact ⟨key, r, (hsame key).symm.trans hr, hnone⟩

theorem advances_purged (h : ¬ s.Exhausted now) :
  Advances s (s.purged now)
  := by
  obtain hsame | ⟨hrevision, -, -⟩ := purged_cases h
  · rw [hsame]
    exact advances_refl s
  · exact .inl (by omega)

theorem Stamped.purged (hs : Stamped digest s) (h : ¬ s.Exhausted now) :
  Stamped digest (s.purged now)
  := by
  refine ⟨storableAll_purged hs.storable now, ?_⟩
  obtain ⟨stored, revision, hholds, hfile⟩ := hs.file
  use stored, revision
  rw [file_purged]
  refine ⟨hholds, ?_⟩
  obtain hnone | ⟨hrevision, hdirty, hlacks⟩ := purged_cases h
  · rw [hnone]
    exact hfile
  · obtain ⟨heq, hsame⟩ | ⟨-, hlt, hbehind⟩ := hfile
    · exact .inr ⟨hdirty, by omega, hlacks.congr hsame⟩
    · exact .inr ⟨hdirty, by omega, hbehind.purged now⟩

/-- After a snapshot is written the file holds what it was taken of. -/
theorem stamped_persisted {records : Records} {revision : ℕ} (h : StorableAll records revision) :
  Stamped digest ⟨records, revision, false, some (encodeSnapshot digest records revision)⟩
  := by
  obtain ⟨stored, hdecode, hlookup⟩ := decodeSnapshot_encodeSnapshot digest h
  exact ⟨h, stored, revision, hdecode, .inl ⟨rfl, fun key => (hlookup key).symm⟩⟩

variable {s' : FileState}

/-- An operation that finds a generation left moves it with the records. -/
theorem Stamped.effect {α : Type} {outcome : Except StoreError α} (hs : Stamped digest s)
    (hleft : ¬ s.Exhausted now) (heffect : Effect digest s now (outcome, s')) :
  Stamped digest s' ∧ Advances s s'
  := by
  cases heffect with
  | unchanged e => exact ⟨hs, advances_refl s⟩
  | purged outcome => exact ⟨hs.purged hleft, advances_purged hleft⟩
  | flushed a hnot =>
      exact ⟨stamped_persisted (storableAll_purged hs.storable now), advances_purged hleft⟩
  | changed a candidate hnot hmax hcandidate =>
      refine ⟨stamped_persisted
        (storableAll_changed (storableAll_purged hs.storable now) hmax hcandidate), .inl ?_⟩
      exact Nat.lt_succ_of_le (revision_purged s now)

theorem Stamped.next (hs : Stamped digest s) {q : Request}
    (h : q.Admitted → ¬ s.Exhausted q.circumstances.now) :
  Stamped digest (next digest s q) ∧ Advances s (next digest s q)
  := by
  by_cases hadmitted : q.Admitted
  · exact hs.effect (h hadmitted) (serve_effect digest hs.storable.keyed q)
  · rw [next_of_not_admitted hs.storable.keyed hadmitted]
    exact ⟨hs, advances_refl s⟩

/-- A store that has started. -/
theorem stamped_of_start {c : StartCircumstances} {file : Option SnapshotBytes}
    (h : start digest c file = .ok s) :
  Stamped digest s
  := by
  obtain ⟨stored, revision, hholds, hstorable, hleft, rfl⟩ := start_eq_ok h
  have hloaded : Stamped digest ⟨stored, revision, false, file⟩ :=
    ⟨hstorable, stored, revision, hholds, .inl ⟨rfl, fun _ => rfl⟩⟩
  exact hloaded.purged hleft

/-- A store that is started anew has the records in memory, or a later generation. -/
theorem Stamped.restart (hs : Stamped digest s) {c : StartCircumstances}
    (hmoves : MovesGeneration digest s (.restart c)) (h : start digest c s.file = .ok s') :
  Advances s s'
  := by
  obtain ⟨stored, revision, hholds, -, hleft, rfl⟩ := start_eq_ok h
  obtain ⟨stored', revision', hholds', hfile⟩ := hs.file
  obtain ⟨rfl, rfl⟩ := holds_unique hholds' hholds
  obtain ⟨heq, hsame⟩ | ⟨hdirty, -, hbehind⟩ := hfile
  · -- the file holds the records in memory, at the generation in memory
    obtain hnone | ⟨hrevision, -, -⟩ := purged_cases hleft
    · rw [hnone]
      exact .inr ⟨heq.symm, fun key => (hsame key).symm⟩
    · refine .inl ?_
      rw [hrevision, heq]
      exact Nat.lt_succ_self _
  · -- the file is behind the memory
    obtain hclean | hmatch := hmoves
    · rw [hclean] at hdirty
      cases hdirty
    · obtain ⟨hrevision, hloaded⟩ := hmatch stored' revision' hholds
      obtain hnone | ⟨hrevision', -, -⟩ := purged_cases hleft
      · -- the file has a record that is no longer in memory, so some record has expired
        exfalso
        obtain ⟨key, r, hr, hgone⟩ := hbehind
        have hkept := lookup_purged ⟨stored', revision', false, s.file⟩ c.now key
        rw [hnone] at hkept
        rw [← hloaded key, ← hkept, hr] at hgone
        cases hgone
      · refine .inr ⟨hrevision'.trans hrevision.symm, fun key => ?_⟩
        rw [lookup_purged]
        exact hloaded key

/-! ### Cursors -/

/-- The properties of the document of a cursor. -/
theorem cursor_properties (version revision text offset : Json) :
  let properties := [(name "version", version), (name "revision", revision),
    (name "prefix", text), (name "offset", offset)]
  hasKeys properties [name "offset", name "prefix", name "revision", name "version"] = true ∧
    Json.property properties (name "version") = some version ∧
    Json.property properties (name "revision") = some revision ∧
    Json.property properties (name "prefix") = some text ∧
    Json.property properties (name "offset") = some offset
  := by
  refine ⟨?_, rfl, rfl, rfl, rfl⟩
  simp only [hasKeys, List.map]
  decide +kernel

/-- A cursor is decoded only at the generation and for the text it was made of. -/
theorem eq_of_decodeCursor {revision revision' n offset : ℕ} {keyPrefix keyPrefix' : JsString}
    (h : decodeCursor (encodeCursor revision' keyPrefix' n) revision keyPrefix = .ok offset) :
  revision' = revision ∧ keyPrefix' = keyPrefix ∧ n = offset
  := by
  rw [decodeCursor, encodeCursor, Json.stringify, Option.bind_some] at h
  split at h
  · cases h
  rename_i hdocument
  cases h
  obtain ⟨-, hversion, hrevision, htext, hoffset⟩ := cursor_properties
    (.number (.ofNat CursorVersion)) (.number (.ofNat revision')) (.string keyPrefix')
    (.number (.ofNat n))
  simp only [cursorOffset, hversion, hrevision, htext, hoffset, Option.bind_eq_bind,
    Option.bind_some, Option.bind_eq_some_iff, guard_eq_some] at hdocument
  obtain ⟨_, -, _, ⟨-, hgeneration, rfl⟩, hn⟩ := hdocument
  exact ⟨(JsNumber.eq_of_toSafeNat?_ofNat hgeneration).symm, rfl,
    (JsNumber.eq_of_toSafeNat?_ofNat hn).symm⟩

/-! ### Listing -/

/-- A list that returns a page has removed the expired records and accepted its cursor. -/
theorem list_eq_ok (hs : Keyed s.records) {c : Circumstances} {selected : List ListOption}
    {options : ListOptions} {page : StorePage} (hoptions : listOptions selected = .ok options)
    (h : StoreM.exec (list c selected) s = (.ok page, s')) :
  ¬ s.Exhausted c.now ∧ s' = s.purged c.now ∧
    ∃ offset, offsetOf s'.revision options = .ok offset ∧ page = s'.pageOf options offset
  := by
  rw [exec_list s hs] at h
  cases hvalid : admitList c selected with
  | error e =>
      rw [hvalid] at h
      cases h
  | ok options' =>
      rw [hvalid, after_ok] at h
      simp only [admitList, bind_eq_ok, Except.ok.injEq] at hvalid
      obtain ⟨_, -, _, hoptions', _, -, rfl⟩ := hvalid
      cases hoptions.symm.trans hoptions'
      simp only at h
      split at h
      · cases h
      · rename_i hleft
        cases hoffset : offsetOf (s.purged c.now).revision options with
        | error e =>
            rw [hoffset] at h
            cases h
        | ok offset =>
            rw [hoffset, after_ok] at h
            split at h
            · cases h
            · cases h
              exact ⟨hleft, rfl, offset, hoffset, rfl⟩

/-- A File Store whose actions move its generation stamps its cursors with it. -/
theorem fileProvider_stamps :
  (fileProvider digest (MovesGeneration digest)).Stamps (Stamped digest) encodeCursor
  := by
  constructor
  case initial =>
    rintro s ⟨c, file, hstart⟩
    exact stamped_of_start hstart
  case step =>
    rintro s s' hs ⟨action, hmoves, hacts⟩
    cases action with
    | call q =>
        cases hacts
        exact hs.next hmoves
    | restart c => exact ⟨stamped_of_start hacts, hs.restart hmoves hacts⟩
  case keyed =>
    intro s hs
    exact hs.storable.keyed
  case lists =>
    rintro s s' now options page hs ⟨c, selected, rfl, hoptions, hlist⟩
    obtain ⟨hleft, hpurged, offset, hoffset, rfl⟩ := list_eq_ok hs.storable.keyed hoptions hlist
    subst hpurged
    refine ⟨hs.purged hleft, advances_purged hleft, lookup_purged s c.now, offset, _, rfl, ?_, ?_⟩
    · intro hfirst
      rw [offsetOf, hfirst] at hoffset
      cases hoffset
      rfl
    · intro revision keyPrefix n hcursor
      rw [offsetOf, hcursor] at hoffset
      exact eq_of_decodeCursor hoffset

variable (digest) in
/-- Listing a Memory Store by pages neither skips nor repeats a record, and so does listing
a File Store whose actions move its generation. -/
theorem stores_paginate :
  Memory.memoryProvider.Paginates ∧ (fileProvider digest (MovesGeneration digest)).Paginates
  := ⟨Memory.memoryProvider_stamps.paginates, fileProvider_stamps.paginates⟩

/-! ### A record that is skipped -/

/-- Any action may happen. -/
def anyAction : FileState → Action → Prop := fun _ _ => True

/-- The number of milliseconds as a time. -/
def instant (ms : Fin 100) : Timestamp :=
  ⟨ms.val, ms.isLt.le.trans (by decide)⟩

/-- The option that sets the lifetime of a record. -/
def lifetime (ms : ℕ) : WriteOption := fun _ => .ok ⟨some (.ofNat ms), none, none⟩

/-- A store in which `a` expires at 10, `b` expires at 20, and `c` does not expire. -/
def threeRecords : FileState :=
  [("a", [lifetime 10]), ("b", [lifetime 20]), ("c", [])].foldl
    (fun s (key, options) =>
      next zeroDigest s ⟨calm (instant 0), .write ⟨name key, [], none⟩ options⟩)
    emptyState

/-- The effective options of a list of pages of one record. -/
def onePerPage (cursor : Option JsonText) : ListOptions :=
  ⟨DefaultListOptions.keyPrefix, some ⟨1, by decide⟩, cursor⟩

/-- The options of a list of pages of one record. -/
def onePerPageOptions (cursor : Option JsonText) : List ListOption :=
  [fun _ => .ok (onePerPage cursor).toCandidate]

/-- The cursor after the first page, which is listed at 10. -/
def afterFirst : JsonText := encodeCursor 4 (name "") 1

/-- The store after the first page is listed. -/
def listedOnce : FileState :=
  (StoreM.exec (list (calm (instant 10)) (onePerPageOptions none)) threeRecords).2

/-- The store that is started at 20 on the directory of the stopped one. -/
def startedAgain : FileState :=
  (start zeroDigest (calmStart (instant 20)) listedOnce.file).toOption.getD emptyState

theorem start_listedOnce :
  start zeroDigest (calmStart (instant 20)) listedOnce.file = .ok startedAgain
  := by
  have hok : (start zeroDigest (calmStart (instant 20)) listedOnce.file).isOk = true := by
    decide +kernel
  rw [startedAgain]
  cases hstart : start zeroDigest (calmStart (instant 20)) listedOnce.file with
  | ok s => rfl
  | error e =>
      rw [hstart] at hok
      cases hok

/-- The store that is started again takes the generation of the cursor for the removal of
both expired records, and lists no record after the cursor. The first page has `b`, so `c`
is skipped. -/
theorem restarted_skips :
  ¬ (Memory.memoryProvider.Paginates ∧ ∀ digest, (fileProvider digest anyAction).Paginates)
  := by
  rintro ⟨-, h⟩
  have hwrites : Relation.ReflTransGen (fileProvider zeroDigest anyAction).Step emptyState
      threeRecords :=
    .tail (.tail (.tail .refl ⟨.call _, trivial, rfl⟩) ⟨.call _, trivial, rfl⟩)
      ⟨.call _, trivial, rfl⟩
  have hfirst : StoreM.exec (list (calm (instant 10)) (onePerPageOptions none)) threeRecords =
      (.ok ⟨(matching listedOnce.records (name "")).take 1, some afterFirst⟩, listedOnce) := rfl
  have hsecond : StoreM.exec (list (calm (instant 20)) (onePerPageOptions (some afterFirst)))
      startedAgain = (.ok ⟨[], none⟩, startedAgain) := rfl
  have hlists₁ : (fileProvider zeroDigest anyAction).Lists threeRecords (instant 10)
      (onePerPage none) _ listedOnce := ⟨_, _, rfl, rfl, hfirst⟩
  have hlists₂ : (fileProvider zeroDigest anyAction).Lists startedAgain (instant 20)
      (onePerPage (some afterFirst)) _ startedAgain := ⟨_, _, rfl, rfl, hsecond⟩
  obtain ⟨-, hsame⟩ := (h zeroDigest).accepted ⟨_, _, start_emptyState (instant 0)⟩ hwrites hlists₁ rfl
    (.single ⟨.restart _, trivial, start_listedOnce⟩) hlists₂ rfl
  have hlength := congrArg List.length hsame
  revert hlength
  decide

end Store.File
