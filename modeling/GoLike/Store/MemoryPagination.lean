import GoLike.Store.MemorySteps
import GoLike.Store.Pagination

/-!
# Listing a Memory Store by pages

The generation of a Memory Store moves with every change of its records, the removal of
expired ones included, and a cursor is accepted only at the generation it was issued at.
-/

namespace Store.Memory

/-! ### The provider -/

/-- The Memory Store as a provider: any call may happen to it. -/
def memoryProvider : Provider where
  State := MemoryState
  Initial s := ∃ seed, newMemoryStoreAtRevision seed = .ok s
  records := MemoryState.records
  revision := MemoryState.revision
  Step s s' := ∃ q, s' = (StoreM.exec (serve q) s).2
  Lists s now options page s' := ∃ ctx clock selected,
    timestamp clock = .ok now ∧ listOptions selected = .ok options ∧
      StoreM.exec (list ctx clock selected) s = (.ok page, s')

/-! ### Cursors -/

variable {revision : ℕ}

/-- A cursor is decoded only to what it was made of. -/
theorem eq_of_decodeCursor {offset : ℕ} {keyPrefix : JsString} {decoded : DecodedCursor}
    (h : decodeCursor (encodeCursor revision keyPrefix offset) = .ok decoded) :
  decoded = ⟨revision, keyPrefix, offset⟩
  := by
  rw [decodeCursor, encodeCursor, Json.stringify, Option.bind_some] at h
  split at h
  · cases h
  rename_i hdocument
  cases h
  simp only [cursorOfDocument, if_true, Option.bind_eq_bind, Option.bind_eq_some_iff,
    Option.some.injEq] at hdocument
  obtain ⟨r, hr, n, hn, rfl⟩ := hdocument
  rw [JsNumber.eq_of_toSafeNat?_ofNat hr, JsNumber.eq_of_toSafeNat?_ofNat hn]

/-- A cursor of a list is decoded only to what it was made of. -/
theorem nullable_eq_of_decodeCursor {offset : ℕ} {keyPrefix : JsString}
    {decoded : Option DecodedCursor}
    (h : nullable decodeCursor (some (encodeCursor revision keyPrefix offset)) = .ok decoded) :
  decoded = some ⟨revision, keyPrefix, offset⟩
  := by
  rw [nullable] at h
  cases hcursor : decodeCursor (encodeCursor revision keyPrefix offset) with
  | error e =>
      rw [hcursor] at h
      cases h
  | ok cursor =>
      rw [hcursor] at h
      cases h
      rw [eq_of_decodeCursor hcursor]

/-! ### Generations -/

variable {s s' : MemoryState} {now : Timestamp}

/-- The removal of expired records takes a generation unless nothing has expired. -/
theorem advances_purged (h : s.purged now = .ok s') :
  memoryProvider.Advances s s'
  := by
  rw [MemoryState.purged] at h
  split at h
  · cases h
    apply Provider.Advances.refl
  · split at h
    · cases h
    · cases h
      exact .inl (Nat.lt_succ_self _)

theorem revision_of_nextRevision (h : s.nextRevision = .ok revision) :
  revision = s.revision + 1
  := by
  rw [MemoryState.nextRevision] at h
  split at h
  · cases h
  · cases h
    rfl

/-- The invariant of the outcome of an operation from a state. -/
def Advanced {α : Type} (s : MemoryState) (outcome : Except StoreError α × MemoryState) : Prop :=
  Keyed outcome.2.records ∧ memoryProvider.Advances s outcome.2

variable {α : Type}

theorem advanced_unchanged (hs : Keyed s.records) (outcome : Except StoreError α) :
  Advanced s (outcome, s)
  := ⟨hs, Provider.Advances.refl (P := memoryProvider) s⟩

theorem advanced_purged (hs : Keyed s.records) (h : s.purged now = .ok s')
    (outcome : Except StoreError α) :
  Advanced s (outcome, s')
  := ⟨keyed_purged hs h, advances_purged h⟩

/-- Records at the next generation. -/
theorem advanced_next (hnext : s.nextRevision = .ok revision) {records : Records}
    (hkeyed : Keyed records) (outcome : Except StoreError α) :
  Advanced s (outcome, ⟨records, revision⟩)
  := by
  rw [revision_of_nextRevision hnext]
  exact ⟨hkeyed, .inl (Nat.lt_succ_self _)⟩

theorem keyed_removeAll (hs : Keyed s.records) (now : Timestamp) :
  Keyed (removeAll s.records (expiredKeys s.records now))
  := by
  intro key r hr
  rw [lookup_removeAll_expiredKeys] at hr
  exact hs key r (visible_eq_some.mp hr).1

theorem Advanced.map {β : Type} {outcome : Except StoreError α × MemoryState}
    (h : Advanced s outcome) (f : α → β) :
  Advanced s (outcome.1.map f, outcome.2)
  := h

/-- Every call changes the records only together with the generation. -/
theorem serve_advanced (hs : Keyed s.records) (q : Request) :
  Advanced s (StoreM.exec (serve q) s)
  := by
  have failed : ∀ {α : Type} (e : StoreError), Advanced (α := α) s (.error e, s) :=
    fun e => advanced_unchanged hs _
  obtain ⟨ctx, clock, call⟩ := q
  cases call with
  | read key =>
      simp only [serve, exec_map, exec_read]
      apply Advanced.map
      apply after_outcome s failed
      rintro ⟨selectedKey, now⟩ _
      apply after_outcome s failed
      intro s' hs'
      exact advanced_purged hs hs' _
  | write value options =>
      simp only [serve, exec_map, exec_write]
      apply Advanced.map
      apply after_outcome s failed
      rintro ⟨input, resolved, now, expiresAt⟩ _
      apply after_outcome s failed
      intro _ _
      apply after_outcome s failed
      intro revision hrevision
      apply advanced_next hrevision
      intro key r hr
      by_cases hkey : key = input.key
      · subst hkey
        rw [AList.lookup_insert] at hr
        cases hr
        rfl
      · rw [AList.lookup_insert_ne hkey] at hr
        exact keyed_removeAll hs now key r hr
  | delete key options =>
      simp only [serve, exec_map, exec_delete]
      apply Advanced.map
      apply after_outcome s failed
      rintro ⟨selectedKey, resolved, now⟩ _
      apply after_outcome s failed
      intro _ _
      simp only
      split
      · apply after_outcome s failed
        intro s' hs'
        exact advanced_purged hs hs' _
      · apply after_outcome s failed
        intro revision hrevision
        apply advanced_next hrevision
        intro key r hr
        by_cases hkey : key = selectedKey
        · subst hkey
          rw [AList.lookup_erase] at hr
          cases hr
        · rw [AList.lookup_erase_ne hkey] at hr
          exact keyed_removeAll hs now key r hr
  | list options =>
      simp only [serve, exec_map, exec_list s hs]
      apply Advanced.map
      apply after_outcome s failed
      rintro ⟨resolved, decoded, now⟩ _
      apply after_outcome s failed
      intro s' hs'
      split
      · exact advanced_purged hs hs' _
      · exact advanced_purged hs hs' _

/-! ### Listing -/

/-- What the validation of a list yields. -/
theorem admitList_eq_ok {ctx : Context} {clock : ClockReading} {selected : List ListOption}
    {options : ListOptions} {decoded : Option DecodedCursor}
    (h : admitList ctx clock selected = .ok (options, decoded, now)) :
  listOptions selected = .ok options ∧ nullable decodeCursor options.cursor = .ok decoded ∧
    timestamp clock = .ok now
  := by
  simp only [admitList, bind_eq_ok, Except.ok.injEq, Prod.mk.injEq] at h
  obtain ⟨_, -, _, hoptions, _, hdecoded, _, hnow, rfl, rfl, rfl⟩ := h
  exact ⟨hoptions, hdecoded, hnow⟩

/-- A list that returns a page has removed the expired records and accepted its cursor. -/
theorem list_eq_ok (hs : Keyed s.records) {ctx : Context} {clock : ClockReading}
    {selected : List ListOption} {page : StorePage}
    (h : StoreM.exec (list ctx clock selected) s = (.ok page, s')) :
  ∃ options decoded now, admitList ctx clock selected = .ok (options, decoded, now) ∧
    s.purged now = .ok s' ∧ ¬ stale s' options.keyPrefix.val decoded ∧
    page = s'.pageOf options (startOf decoded)
  := by
  rw [exec_list s hs] at h
  cases hvalid : admitList ctx clock selected with
  | error e =>
      rw [hvalid] at h
      cases h
  | ok admitted =>
      obtain ⟨options, decoded, now⟩ := admitted
      rw [hvalid] at h
      simp only [after_ok] at h
      cases hpurged : s.purged now with
      | error e =>
          rw [hpurged] at h
          cases h
      | ok s'' =>
          rw [hpurged, after_ok] at h
          split at h
          · cases h
          · rename_i hstale
            cases h
            exact ⟨options, decoded, now, rfl, hpurged, hstale, rfl⟩

theorem keyed_new {seed : JsNumber} (h : newMemoryStoreAtRevision seed = .ok s) :
  Keyed s.records
  := by
  simp only [newMemoryStoreAtRevision, bind_eq_ok, Except.ok.injEq] at h
  obtain ⟨revision, -, rfl⟩ := h
  intro key r hr
  cases hr

/-- A Memory Store stamps its cursors with its generation. -/
theorem memoryProvider_stamps :
  memoryProvider.Stamps (fun s => Keyed (MemoryState.records s)) encodeCursor
  := by
  constructor
  case initial =>
    rintro s ⟨seed, hseed⟩
    exact keyed_new hseed
  case step =>
    rintro s _ hs ⟨q, rfl⟩
    exact serve_advanced hs q
  case keyed =>
    intro s hs
    exact hs
  case lists =>
    rintro s s' now options page hs ⟨ctx, clock, selected, hnow, hoptions, hlist⟩
    obtain ⟨options', decoded, now', hvalid, hpurged, hstale, rfl⟩ := list_eq_ok hs hlist
    obtain ⟨hoptions', hdecoded, hnow'⟩ := admitList_eq_ok hvalid
    cases hoptions.symm.trans hoptions'
    cases hnow.symm.trans hnow'
    refine ⟨keyed_purged hs hpurged, advances_purged hpurged, lookup_purged hpurged,
      startOf decoded, _, rfl, ?_, ?_⟩
    · intro hfirst
      rw [hfirst] at hdecoded
      cases hdecoded
      rfl
    · intro revision keyPrefix n hcursor
      rw [hcursor] at hdecoded
      have hdesignated := nullable_eq_of_decodeCursor hdecoded
      subst hdesignated
      have hfresh : ¬ (revision ≠ s'.revision ∨ keyPrefix ≠ options.keyPrefix.val) := by
        intro hother
        apply hstale
        use ⟨revision, keyPrefix, n⟩, rfl
        tauto
      simp only [not_or, not_not] at hfresh
      exact ⟨hfresh.1, hfresh.2, rfl⟩

end Store.Memory
