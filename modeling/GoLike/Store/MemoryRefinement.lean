import GoLike.Store.Abstract
import GoLike.Store.MemorySteps

/-!
# The Memory Store refines a versioned map

Each call of a Memory Store is answered as the versioned map that its state represents
prescribes, or is rejected for one of the reasons listed in `Rejected`. From this and what
holds in the runs of versioned maps, it follows that the revisions of writes increase, that
a revision determines its record, and that a stale revision stays stale.
-/

namespace Store.Memory

open Versioned (Step Run)

/-! ### Replies -/

/-- A reason for which a call is rejected: its context, arguments or clock are not
admitted, the generation is exhausted, or its cursor is stale. -/
inductive Rejected (s : MemoryState) : Request → StoreError → Prop where
  | read {ctx clock key e} (h : admitRead ctx clock key = .error e) :
      Rejected s ⟨ctx, clock, .read key⟩ e
  | write {ctx clock value options e} (h : admitWrite ctx clock value options = .error e) :
      Rejected s ⟨ctx, clock, .write value options⟩ e
  | delete {ctx clock key options e} (h : admitDelete ctx clock key options = .error e) :
      Rejected s ⟨ctx, clock, .delete key options⟩ e
  | list {ctx clock options e} (h : admitList ctx clock options = .error e) :
      Rejected s ⟨ctx, clock, .list options⟩ e
  | exhausted {q} (h : MaximumRevision ≤ s.revision) :
      Rejected s q (.rangeError "Memory Store revision is exhausted")
  | stale {ctx clock options resolved decoded now s'}
      (hvalid : admitList ctx clock options = .ok (resolved, decoded, now))
      (hpurged : s.purged now = .ok s') (h : stale s' resolved.keyPrefix.val decoded) :
      Rejected s ⟨ctx, clock, .list options⟩ cursorError

/-- The reply to a call, made in a state and at a time, presents an event of the versioned
map. -/
inductive Presents (s : MemoryState) (now : Timestamp) :
    Request → Except StoreError Reply → Event → Prop where
  | read {ctx clock key selectedKey} {found : Option Entry}
      (hvalid : admitRead ctx clock key = .ok (selectedKey, now)) :
      Presents s now ⟨ctx, clock, .read key⟩ (.ok (.found (found.map (toRecord selectedKey))))
        (.read selectedKey found)
  | write {ctx clock value options input resolved expiresAt} {e : Entry}
      (hvalid : admitWrite ctx clock value options = .ok (input, resolved, now, expiresAt))
      (hcontent : e.content = (input.value, input.metadata)) (hexpiry : e.expiresAt = expiresAt) :
      Presents s now ⟨ctx, clock, .write value options⟩ (.ok (.written (toRecord input.key e)))
        (.write input.key resolved.condition e)
  | writeConflict {ctx clock value options input resolved expiresAt actual}
      (hvalid : admitWrite ctx clock value options = .ok (input, resolved, now, expiresAt)) :
      Presents s now ⟨ctx, clock, .write value options⟩
        (.error (newStoreConflictError input.key resolved.ifRevision actual))
        (.conflict input.key resolved.condition actual)
  | delete {ctx clock key options selectedKey resolved removed}
      (hvalid : admitDelete ctx clock key options = .ok (selectedKey, resolved, now)) :
      Presents s now ⟨ctx, clock, .delete key options⟩ (.ok (.deleted removed))
        (.delete selectedKey resolved.condition removed)
  | deleteConflict {ctx clock key options selectedKey resolved actual}
      (hvalid : admitDelete ctx clock key options = .ok (selectedKey, resolved, now)) :
      Presents s now ⟨ctx, clock, .delete key options⟩
        (.error (newStoreConflictError selectedKey resolved.ifRevision actual))
        (.conflict selectedKey resolved.condition actual)
  | list {ctx clock options resolved decoded page} {l : List (Key × Entry)}
      (hvalid : admitList ctx clock options = .ok (resolved, decoded, now))
      (hrecords : page.records =
        ((l.map (fun entry => toRecord entry.1 entry.2)).drop (startOf decoded)).take
          (pageCount resolved.limit (l.length - startOf decoded)))
      (hcursor : page.cursor.isSome = true ↔
        startOf decoded + page.records.length < l.length) :
      Presents s now ⟨ctx, clock, .list options⟩ (.ok (.page page))
        (.list (fun key => key.val.startsWith resolved.keyPrefix.val = true) l)
  | fail {q e} (h : Rejected s q e) : Presents s now q (.error e) .fail

/-! ### One call -/

/-- The time of a call: what the clock returns or, when this is not a time, the time of
the call before. -/
def timeOf (now : Timestamp) (q : Request) : Timestamp :=
  match timestamp q.clock with
  | .ok t => t
  | .error _ => now

variable {q : Request} {t : Timestamp}

theorem timeOf_eq {now : Timestamp} (h : timestamp q.clock = .ok t) :
  timeOf now q = t
  := by
  rw [timeOf, h]

theorem le_of_timestamp {now : Timestamp} (hclock : now ≤ timeOf now q)
    (h : timestamp q.clock = .ok t) :
  now ≤ t
  := by
  rw [timeOf_eq h] at hclock
  exact hclock

/-- The call made in state `s` has the result of a step of the map. -/
def Simulates (s : MemoryState) (now : Timestamp) (m : VersionedMap) (q : Request)
    (result : Except StoreError Reply × MemoryState) : Prop :=
  ∃ event m', Step revisionText (timeOf now q) m event m' ∧
    Represents result.2.records result.2.revision (timeOf now q) m' ∧
    Presents s (timeOf now q) q result.1 event

variable {s : MemoryState} {now : Timestamp} {m : VersionedMap}

/-- A rejected call that leaves the state alone is a step of the map. -/
theorem simulates_rejected (h : Represents s.records s.revision now m) (hclock : now ≤ timeOf now q)
    {e : StoreError} (he : Rejected s q e) :
  Simulates s now m q (.error e, s)
  := ⟨.fail, m, .fail, h.later hclock, .fail he⟩

/-- A call admitted at `t` whose result presents an event is a step of the map. -/
theorem simulates_step (hnow : timestamp q.clock = .ok t) {event : Event} {m' : VersionedMap}
    (hstep : Step revisionText t m event m') {reply : Except StoreError Reply} {s' : MemoryState}
    (hs' : Represents s'.records s'.revision t m') (hreply : Presents s t q reply event) :
  Simulates s now m q (reply, s')
  := by
  rw [Simulates, timeOf_eq hnow]
  exact ⟨event, m', hstep, hs', hreply⟩

variable {ctx : Context} {clock : ClockReading} {key : JsString}

theorem timestamp_of_admitRead {selectedKey : Key}
    (h : admitRead ctx clock key = .ok (selectedKey, t)) :
  timestamp clock = .ok t
  := by
  simp only [admitRead, bind_eq_ok, Except.ok.injEq, Prod.mk.injEq] at h
  obtain ⟨_, -, _, -, _, hnow, -, rfl⟩ := h
  exact hnow

theorem timestamp_of_admitWrite {value : StoreRecordInput} {options : List WriteOption}
    {input : StoreRecordInputSnapshot} {resolved : WriteOptions} {expiresAt : Option Timestamp}
    (h : admitWrite ctx clock value options = .ok (input, resolved, t, expiresAt)) :
  timestamp clock = .ok t
  := by
  simp only [admitWrite, bind_eq_ok, Except.ok.injEq, Prod.mk.injEq] at h
  obtain ⟨_, -, _, -, _, -, _, hnow, _, -, -, -, rfl, -⟩ := h
  exact hnow

theorem timestamp_of_admitDelete {options : List DeleteOption} {selectedKey : Key}
    {resolved : DeleteOptions}
    (h : admitDelete ctx clock key options = .ok (selectedKey, resolved, t)) :
  timestamp clock = .ok t
  := by
  simp only [admitDelete, bind_eq_ok, Except.ok.injEq, Prod.mk.injEq] at h
  obtain ⟨_, -, _, -, _, -, _, hnow, -, -, rfl⟩ := h
  exact hnow

theorem timestamp_of_admitList {options : List ListOption} {resolved : ListOptions}
    {decoded : Option DecodedCursor}
    (h : admitList ctx clock options = .ok (resolved, decoded, t)) :
  timestamp clock = .ok t
  := by
  simp only [admitList, bind_eq_ok, Except.ok.injEq, Prod.mk.injEq] at h
  obtain ⟨_, -, _, -, _, -, _, hnow, -, -, rfl⟩ := h
  exact hnow

/-- The removal of the expired records can fail only by exhaustion. -/
theorem purged_cases (s : MemoryState) (now : Timestamp) :
  (∃ s', s.purged now = .ok s' ∧ s.revision ≤ s'.revision) ∨
    (MaximumRevision ≤ s.revision ∧
      s.purged now = .error (.rangeError "Memory Store revision is exhausted"))
  := by
  rw [MemoryState.purged]
  by_cases hnil : expiredKeys s.records now = []
  · rw [if_pos hnil]
    exact .inl ⟨s, rfl, le_rfl⟩
  · rw [if_neg hnil]
    by_cases hmax : s.revision ≥ MaximumRevision
    · rw [if_pos hmax]
      exact .inr ⟨hmax, rfl⟩
    · rw [if_neg hmax]
      exact .inl ⟨_, rfl, Nat.le_succ _⟩

theorem nextRevision_cases (s : MemoryState) :
  s.nextRevision = .ok (s.revision + 1) ∨
    (MaximumRevision ≤ s.revision ∧
      s.nextRevision = .error (.rangeError "Memory Store revision is exhausted"))
  := by
  rw [MemoryState.nextRevision]
  by_cases hmax : s.revision ≥ MaximumRevision
  · rw [if_pos hmax]
    exact .inr ⟨hmax, rfl⟩
  · rw [if_neg hmax]
    exact .inl rfl

theorem read_simulates (h : Represents s.records s.revision now m)
    (hclock : now ≤ timeOf now ⟨ctx, clock, .read key⟩) :
  Simulates s now m ⟨ctx, clock, .read key⟩ (StoreM.exec (serve ⟨ctx, clock, .read key⟩) s)
  := by
  simp only [serve, exec_map, exec_read]
  cases hvalid : admitRead ctx clock key with
  | error e => apply simulates_rejected h hclock (.read hvalid)
  | ok admitted =>
      obtain ⟨selectedKey, t⟩ := admitted
      have hnow := timestamp_of_admitRead hvalid
      have ht := h.later (le_of_timestamp hclock hnow)
      obtain ⟨s', hs', hrevision⟩ | ⟨hmax, herror⟩ := purged_cases s t
      · simp only [after_ok, hs', Except.map]
        rw [lookup_purged hs', ht.visible t le_rfl]
        apply simulates_step hnow (.read selectedKey) (ht.purge hrevision (lookup_purged hs'))
        apply Presents.read hvalid
      · simp only [after_ok, herror, after_error, Except.map]
        apply simulates_rejected h hclock (.exhausted hmax)

theorem write_simulates (h : Represents s.records s.revision now m) {value : StoreRecordInput}
    {options : List WriteOption} (hclock : now ≤ timeOf now ⟨ctx, clock, .write value options⟩) :
  Simulates s now m ⟨ctx, clock, .write value options⟩
    (StoreM.exec (serve ⟨ctx, clock, .write value options⟩) s)
  := by
  simp only [serve, exec_map, exec_write]
  cases hvalid : admitWrite ctx clock value options with
  | error e => apply simulates_rejected h hclock (.write hvalid)
  | ok admitted =>
      obtain ⟨input, resolved, t, expiresAt⟩ := admitted
      have hnow := timestamp_of_admitWrite hvalid
      have ht := h.later (le_of_timestamp hclock hnow)
      simp only [after_ok, ht.visible t le_rfl]
      obtain ⟨hcond, hok⟩ | ⟨hcond, herror⟩ :=
        checkWrite_cases input.key resolved (m.visible t input.key)
      · obtain hnext | ⟨hmax, herror⟩ := nextRevision_cases s
        · simp only [hok, hnext, after_ok, Except.map]
          let e : Entry := ⟨(input.value, input.metadata), revisionText (s.revision + 1), expiresAt⟩
          have hstep : Step revisionText t m (.write input.key resolved.condition e)
              (m.put input.key e (s.revision + 1)) :=
            .write input.key resolved.condition _ expiresAt _ (Nat.lt_succ_of_le h.issued) hcond
          apply simulates_step hnow hstep
          · apply ht.put
            · apply AList.lookup_insert
            · intro j hj
              rw [AList.lookup_insert_ne hj, lookup_removeAll_expiredKeys]
          · exact Presents.write (e := e) hvalid rfl rfl
        · simp only [hok, herror, after_ok, after_error, Except.map]
          apply simulates_rejected h hclock (.exhausted hmax)
      · simp only [herror, after_error, Except.map]
        apply simulates_step hnow (.conflict input.key _ hcond) ht
        apply Presents.writeConflict hvalid

theorem delete_simulates (h : Represents s.records s.revision now m) {options : List DeleteOption}
    (hclock : now ≤ timeOf now ⟨ctx, clock, .delete key options⟩) :
  Simulates s now m ⟨ctx, clock, .delete key options⟩
    (StoreM.exec (serve ⟨ctx, clock, .delete key options⟩) s)
  := by
  simp only [serve, exec_map, exec_delete]
  cases hvalid : admitDelete ctx clock key options with
  | error e => apply simulates_rejected h hclock (.delete hvalid)
  | ok admitted =>
      obtain ⟨selectedKey, resolved, t⟩ := admitted
      have hnow := timestamp_of_admitDelete hvalid
      have ht := h.later (le_of_timestamp hclock hnow)
      simp only [after_ok, ht.visible t le_rfl]
      obtain ⟨hcond, hok⟩ | ⟨hcond, herror⟩ :=
        checkDelete_cases selectedKey resolved (m.visible t selectedKey)
      · have hstep : Step revisionText t m _ _ := .delete selectedKey resolved.condition hcond
        simp only [hok, after_ok]
        cases hvisible : m.visible t selectedKey with
        | none =>
            rw [hvisible] at hstep
            simp only [Option.map_none]
            obtain ⟨s', hs', hrevision⟩ | ⟨hmax, herror⟩ := purged_cases s t
            · simp only [hs', after_ok, Except.map]
              apply simulates_step hnow hstep _ (Presents.delete hvalid)
              apply ht.remove hrevision
              · rw [lookup_purged hs', ht.visible t le_rfl, hvisible]
                rfl
              · intro j _
                apply lookup_purged hs'
            · simp only [herror, after_error, Except.map]
              apply simulates_rejected h hclock (.exhausted hmax)
        | some e =>
            rw [hvisible] at hstep
            simp only [Option.map_some]
            obtain hnext | ⟨hmax, herror⟩ := nextRevision_cases s
            · simp only [hnext, after_ok, Except.map]
              apply simulates_step hnow hstep _ (Presents.delete hvalid)
              apply ht.remove (Nat.le_succ _)
              · apply AList.lookup_erase
              · intro j hj
                rw [AList.lookup_erase_ne hj, lookup_removeAll_expiredKeys]
            · simp only [herror, after_error, Except.map]
              apply simulates_rejected h hclock (.exhausted hmax)
      · simp only [herror, after_error, Except.map]
        apply simulates_step hnow (.conflict selectedKey _ hcond) ht
        apply Presents.deleteConflict hvalid

theorem list_simulates (h : Represents s.records s.revision now m) {options : List ListOption}
    (hclock : now ≤ timeOf now ⟨ctx, clock, .list options⟩) :
  Simulates s now m ⟨ctx, clock, .list options⟩ (StoreM.exec (serve ⟨ctx, clock, .list options⟩) s)
  := by
  simp only [serve, exec_map, exec_list s h.keyed]
  cases hvalid : admitList ctx clock options with
  | error e => apply simulates_rejected h hclock (.list hvalid)
  | ok admitted =>
      obtain ⟨resolved, decoded, t⟩ := admitted
      have hnow := timestamp_of_admitList hvalid
      have ht := h.later (le_of_timestamp hclock hnow)
      obtain ⟨s', hs', hrevision⟩ | ⟨hmax, herror⟩ := purged_cases s t
      · have hpurge := ht.purge hrevision (lookup_purged hs')
        simp only [after_ok, hs']
        split
        · rename_i hstale
          apply simulates_step hnow .fail hpurge
          apply Presents.fail (.stale hvalid hs' hstale)
        · obtain ⟨l, hmatching, hsorted, hmem⟩ :=
            ht.listing (lookup_purged hs') resolved.keyPrefix.val
          apply simulates_step hnow (.list _ l hsorted hmem) hpurge
          apply Presents.list hvalid
          · simp only [MemoryState.pageOf, pageFrom, hmatching, List.length_map]
          · simp only [MemoryState.pageOf, pageFrom, hmatching, List.length_map]
            split
            · rename_i hlt
              simpa using hlt
            · rename_i hlt
              simpa using hlt
      · simp only [after_ok, herror, after_error, Except.map]
        apply simulates_rejected h hclock (.exhausted hmax)

/-- Every call has the result of a step of the versioned map the state represents. -/
theorem serve_simulates (h : Represents s.records s.revision now m) (hclock : now ≤ timeOf now q) :
  Simulates s now m q (StoreM.exec (serve q) s)
  := by
  obtain ⟨ctx, clock, call⟩ := q
  cases call with
  | read key => exact read_simulates h hclock
  | write value options => exact write_simulates h hclock
  | delete key options => exact delete_simulates h hclock
  | list options => exact list_simulates h hclock

/-! ### Calls that throw -/

/-- The state is `s`, or `s` without the records that have expired when the clock is read. -/
def UnchangedUpToExpiry (s : MemoryState) (q : Request) (s' : MemoryState) : Prop :=
  s' = s ∨ ∃ t, timestamp q.clock = .ok t ∧ s.purged t = .ok s'

/-- If the outcome is an error, its state is unchanged up to expiry. -/
def KeepsOnError {α : Type} (s : MemoryState) (q : Request)
    (outcome : Except StoreError α × MemoryState) : Prop :=
  (∃ e, outcome.1 = .error e) → UnchangedUpToExpiry s q outcome.2

variable {α : Type}

theorem KeepsOnError.map {β : Type} {outcome : Except StoreError α × MemoryState}
    (h : KeepsOnError s q outcome) (f : α → β) :
  KeepsOnError s q (outcome.1.map f, outcome.2)
  := by
  obtain ⟨r, s'⟩ := outcome
  cases r with
  | ok a =>
      rintro ⟨e, he⟩
      cases he
  | error e => exact fun _ => h ⟨e, rfl⟩

theorem keepsOnError_error (e : StoreError) :
  KeepsOnError (α := α) s q (.error e, s)
  := fun _ => .inl rfl

theorem keepsOnError_ok (a : α) (s' : MemoryState) :
  KeepsOnError s q (.ok a, s')
  := by
  rintro ⟨e, he⟩
  cases he

/-- A call that throws leaves the state as it was, apart from the removal of expired
records. -/
theorem serve_error (hkeyed : Keyed s.records) (q : Request) :
  KeepsOnError s q (StoreM.exec (serve q) s)
  := by
  obtain ⟨ctx, clock, call⟩ := q
  cases call with
  | read key =>
      simp only [serve, exec_map, exec_read]
      apply KeepsOnError.map
      apply after_outcome s keepsOnError_error
      rintro ⟨selectedKey, t⟩ -
      apply after_outcome s keepsOnError_error
      rintro s' -
      apply keepsOnError_ok
  | write value options =>
      simp only [serve, exec_map, exec_write]
      apply KeepsOnError.map
      apply after_outcome s keepsOnError_error
      rintro ⟨input, resolved, t, expiresAt⟩ -
      apply after_outcome s keepsOnError_error
      rintro _ -
      apply after_outcome s keepsOnError_error
      rintro candidateRevision -
      apply keepsOnError_ok
  | delete key options =>
      simp only [serve, exec_map, exec_delete]
      apply KeepsOnError.map
      apply after_outcome s keepsOnError_error
      rintro ⟨selectedKey, resolved, t⟩ -
      apply after_outcome s keepsOnError_error
      rintro _ -
      cases hvisible : visible s.records t selectedKey with
      | none =>
          simp only
          apply after_outcome s keepsOnError_error
          rintro s' -
          apply keepsOnError_ok
      | some r =>
          simp only
          apply after_outcome s keepsOnError_error
          rintro candidateRevision -
          apply keepsOnError_ok
  | list options =>
      simp only [serve, exec_map, exec_list s hkeyed]
      apply KeepsOnError.map
      apply after_outcome s keepsOnError_error
      rintro ⟨resolved, decoded, t⟩ hvalid
      apply after_outcome s keepsOnError_error
      rintro s' hs'
      have hnow := timestamp_of_admitList hvalid
      by_cases hstale : stale s' resolved.keyPrefix.val decoded
      · simp only [if_pos hstale]
        exact fun _ => .inr ⟨t, hnow, hs'⟩
      · simp only [if_neg hstale]
        apply keepsOnError_ok

/-! ### Runs -/

/-- The times of the calls do not decrease, and lie between `now` and `later`. -/
def Clocked (now : Timestamp) : List Request → Timestamp → Prop
  | [], later => now ≤ later
  | q :: rest, later => now ≤ timeOf now q ∧ Clocked (timeOf now q) rest later

/-- The exchange presents the event, at the time the clock returned. -/
def Answers (x : Exchange) (event : Timestamp × Event) : Prop :=
  (∀ t, timestamp x.request.clock = .ok t → event.1 = t) ∧
    Presents x.before event.1 x.request x.reply event.2

/-- A run of the store answers as a run of the versioned map its state represents. -/
theorem run_simulates (h : Represents s.records s.revision now m) {requests : List Request}
    {later : Timestamp} (hclock : Clocked now requests later) :
  ∃ events m', Run revisionText now m events later m' ∧
    List.Forall₂ Answers (transcript s requests) events ∧
    Represents (run s requests).records (run s requests).revision later m'
  := by
  induction requests generalizing s now m with
  | nil => exact ⟨[], m, .nil m hclock, .nil, h.later hclock⟩
  | cons q rest ih =>
      obtain ⟨hle, hrest⟩ := hclock
      obtain ⟨event, m', hstep, hrep, hreply⟩ := serve_simulates h hle
      obtain ⟨events, m'', hrun, hanswers, hfinal⟩ := ih hrep hrest
      refine ⟨(timeOf now q, event) :: events, m'', .cons hle hstep hrun, ?_, hfinal⟩
      apply List.Forall₂.cons _ hanswers
      exact ⟨fun t ht => timeOf_eq ht, hreply⟩

theorem represents_new {seed : JsNumber} {s₀ : MemoryState}
    (h : newMemoryStoreAtRevision seed = .ok s₀) (now : Timestamp) :
  Represents s₀.records s₀.revision now (.init s₀.revision)
  := by
  simp only [newMemoryStoreAtRevision, bind_eq_ok, Except.ok.injEq] at h
  obtain ⟨revision, -, rfl⟩ := h
  constructor
  · exact le_rfl
  · intro key r hr
    cases hr
  · intro later _ key
    rfl

/-- The revision a reply issues. -/
def written (x : Exchange) : Option Key :=
  match x.reply with
  | .ok (.written r) => some r.revision
  | _ => none

theorem Answers.written {x : Exchange} {event : Timestamp × Event} (h : Answers x event) :
  written x = event.2.written
  := by
  obtain ⟨-, h⟩ := h
  obtain ⟨before, q, reply, after⟩ := x
  obtain ⟨t, event⟩ := event
  cases h with
  | _ => rfl

theorem filterMap_written {exchanges : List Exchange} {events : List (Timestamp × Event)}
    (h : List.Forall₂ Answers exchanges events) :
  exchanges.filterMap written = events.filterMap (fun event => event.2.written)
  := by
  induction h with
  | nil => rfl
  | cons hanswers _ ih => rw [List.filterMap_cons, List.filterMap_cons, ih, hanswers.written]

theorem run_append (s : MemoryState) (requests requests' : List Request) :
  run s (requests ++ requests') = run (run s requests) requests'
  := List.foldl_append

/-! ### The refinement -/

/-- The earliest time. -/
def epoch : Timestamp := ⟨0, Nat.zero_le _⟩

/-- The store that starts from `s₀` refines a versioned map with expiry. -/
structure RefinesVersionedMap (s₀ : MemoryState) : Prop where
  /-- The calls of a run are answered as a run of the versioned map prescribes, and the
  state at its end represents the map at its end. -/
  replies : ∀ {requests later}, Clocked epoch requests later →
    ∃ events m, Run revisionText epoch (.init s₀.revision) events later m ∧
      List.Forall₂ Answers (transcript s₀ requests) events ∧
      Represents (run s₀ requests).records (run s₀ requests).revision later m
  /-- The revisions of the writes of a run are numbered increasingly from the seed. -/
  increasing : ∀ {requests later}, Clocked epoch requests later →
    ∃ ns : List ℕ, (transcript s₀ requests).filterMap written = ns.map revisionText ∧
      (s₀.revision :: ns).Pairwise (· < ·)
  /-- Records that are visible at two points of a run under one revision are the same. -/
  unique : ∀ {requests₁ requests₂ t₁ t₂ k₁ k₂ r₁ r₂},
    Clocked epoch requests₁ t₁ → Clocked t₁ requests₂ t₂ →
    visible (run s₀ requests₁).records t₁ k₁ = some r₁ →
    visible (run s₀ (requests₁ ++ requests₂)).records t₂ k₂ = some r₂ →
    r₁.revision = r₂.revision → r₁ = r₂
  /-- A revision that has been replaced, removed or has expired is not met again. -/
  stale : ∀ {requests₁ requests₂ requests₃ t₁ t₂ t₃ k r},
    Clocked epoch requests₁ t₁ → Clocked t₁ requests₂ t₂ → Clocked t₂ requests₃ t₃ →
    (visible (run s₀ requests₁).records t₁ k).map StoreRecord.revision = some r →
    (visible (run s₀ (requests₁ ++ requests₂)).records t₂ k).map StoreRecord.revision ≠ some r →
    (visible (run s₀ (requests₁ ++ requests₂ ++ requests₃)).records t₃ k).map
      StoreRecord.revision ≠ some r
  /-- A call that throws changes nothing, apart from the removal of expired records, and so
  leaves the visible records as they were. -/
  throws : ∀ {requests now q}, Clocked epoch requests now →
    (∃ e, (StoreM.exec (serve q) (run s₀ requests)).1 = .error e) →
    UnchangedUpToExpiry (run s₀ requests) q (StoreM.exec (serve q) (run s₀ requests)).2 ∧
      ∀ later, timeOf now q ≤ later → ∀ key,
        visible (StoreM.exec (serve q) (run s₀ requests)).2.records later key =
          visible (run s₀ requests).records later key

theorem visible_of_unchanged {s' : MemoryState} (h : UnchangedUpToExpiry s q s') {later : Timestamp}
    (hle : timeOf now q ≤ later) (key : Key) :
  visible s'.records later key = visible s.records later key
  := by
  obtain rfl | ⟨t, ht, hpurged⟩ := h
  · rfl
  · rw [timeOf_eq ht] at hle
    apply visible_of_lookup (lookup_purged hpurged key) hle

theorem revision_of_visible {records : Records} {revision : ℕ}
    (h : Represents records revision now m) (key : Key) :
  (visible records now key).map StoreRecord.revision =
    (m.visible now key).map Versioned.Entry.revision
  := by
  rw [h.visible now le_rfl, map_revision_toRecord]

/-- A Memory Store refines a versioned map with expiry. -/
theorem memoryStore_refines {seed : JsNumber} {s₀ : MemoryState}
    (hs₀ : newMemoryStoreAtRevision seed = .ok s₀) :
  RefinesVersionedMap s₀
  := by
  have hinit : Represents s₀.records s₀.revision epoch (.init s₀.revision) :=
    represents_new hs₀ epoch
  have hconsistent := Versioned.consistent_init (K := Key) (V := Content) (T := Timestamp)
    revisionText s₀.revision
  constructor
  case replies =>
    intro requests later hclock
    exact run_simulates hinit hclock
  case increasing =>
    intro requests later hclock
    obtain ⟨events, m, hrun, hanswers, -⟩ := run_simulates hinit hclock
    rw [filterMap_written hanswers]
    exact hrun.written
  case unique =>
    intro requests₁ requests₂ t₁ t₂ k₁ k₂ r₁ r₂ hclock₁ hclock₂ hr₁ hr₂ hrev
    obtain ⟨_, m₁, hrun₁, -, hrep₁⟩ := run_simulates hinit hclock₁
    obtain ⟨_, m₂, hrun₂, -, hrep₂⟩ := run_simulates hrep₁ hclock₂
    rw [hrep₁.visible t₁ le_rfl, Option.map_eq_some_iff] at hr₁
    rw [run_append, hrep₂.visible t₂ le_rfl, Option.map_eq_some_iff] at hr₂
    obtain ⟨e₁, he₁, rfl⟩ := hr₁
    obtain ⟨e₂, he₂, rfl⟩ := hr₂
    obtain ⟨rfl, rfl⟩ := hrun₂.revision_unique revisionText_injective
      (hrun₁.consistent revisionText_injective hconsistent)
      (Versioned.VersionedMap.visible_eq_some.mp he₁).1
      (Versioned.VersionedMap.visible_eq_some.mp he₂).1 hrev
    rfl
  case stale =>
    intro requests₁ requests₂ requests₃ t₁ t₂ t₃ k r hclock₁ hclock₂ hclock₃ hseen hgone
    obtain ⟨_, m₁, hrun₁, -, hrep₁⟩ := run_simulates hinit hclock₁
    obtain ⟨_, m₂, hrun₂, -, hrep₂⟩ := run_simulates hrep₁ hclock₂
    obtain ⟨_, m₃, hrun₃, -, hrep₃⟩ := run_simulates hrep₂ hclock₃
    rw [revision_of_visible hrep₁] at hseen
    rw [run_append, revision_of_visible hrep₂] at hgone
    rw [run_append, run_append, revision_of_visible hrep₃]
    exact hrun₂.revision_stale revisionText_injective hrun₃
      (hrun₁.consistent revisionText_injective hconsistent) hseen hgone
  case throws =>
    intro requests now q hclock he
    obtain ⟨_, m, -, -, hrep⟩ := run_simulates hinit hclock
    have hunchanged := serve_error hrep.keyed q he
    exact ⟨hunchanged, fun later hle key => visible_of_unchanged hunchanged hle key⟩

theorem memoryStore_refines_zero :
  newMemoryStore = .ok ⟨∅, 0⟩ ∧ RefinesVersionedMap ⟨∅, 0⟩
  := by
  have hnew : newMemoryStoreAtRevision (.ofNat 0) = .ok ⟨∅, 0⟩ := rfl
  exact ⟨hnew, memoryStore_refines hnew⟩

end Store.Memory
