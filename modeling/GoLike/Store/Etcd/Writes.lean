import GoLike.Store.Etcd.Puts
import GoLike.Store.Etcd.Requests

/-!
# The writes of the etcd Store are linearizable

A write that returns a record has put it once, at the revision it returns and under the
conditions of its caller. A write that throws a conflict has put nothing.
-/

open Interleave

namespace Store.Etcd

variable {ι : Type} [DecidableEq ι] {marker : ι ↪ Key} {i : ι} {s s' : KeySpace ι}
  {o : List Observation}

/-! ### What a write establishes -/

/-- The change replaced a row of a revision that the call had observed to be visible. -/
def Replaced (o : List Observation) (c : Change ι) (revision : Key) : Prop :=
  ∃ kv row, c.before = some kv ∧ revisionText kv.modRevision = revision ∧
    .row c.key (some kv) ∈ o ∧ decodeRow kv = some row ∧ VisibleIn o row

/-- No unexpired row existed when the change was made. -/
def Created (c : Change ι) : Prop :=
  ∀ kv, c.before = some kv → ∃ row e t, decodeRow kv = some row ∧
    row.record.expiresAt = some e ∧ c.clock = some t ∧ e.val ≤ t.val

/-- The change put a record, at its revision and under the conditions of the caller. -/
structure WrittenBy (config : WriteOptions) (record : StoreRecord) (o : List Observation)
    (c : Change ι) : Prop where
  key : c.key = record.key
  after : ∃ kv, c.after = some kv ∧ record.revision = revisionText kv.modRevision ∧
    decodeRow kv = some ⟨record, kv.value, kv.lease⟩
  ifRevision : ∀ r, config.ifRevision = some r → Replaced o c r
  ifAbsent : config.ifAbsent = true → Created c

/-- The error is no conflict, or the call has put nothing and will not. -/
def Rejected (i : ι) (e : EtcdError) (s : KeySpace ι) : Prop :=
  reportsConflict e = true → ∃ o, Settled i [] o s

/-- The outcome of a write. -/
def WriteOutcome (i : ι) (config : WriteOptions) (r : Except EtcdError StoreRecord)
    (s : KeySpace ι) : Prop :=
  match r with
  | .ok record => ∃ c o, Settled i [c] o s ∧ WrittenBy config record o c
  | .error e => Rejected i e s

theorem Settled.rejected (h : Settled i [] o s) (e : EtcdError) :
  Rejected i e s
  := fun _ => ⟨o, h⟩

/-! ### Checks -/

omit [DecidableEq ι] in
/-- A validation throws, or the program continues with what it yields. -/
theorem ensures_validate_bind {α β σ : Type} {S : Service ι Request Reply σ} {P : Protocol S}
    {s : σ} {v : Except StoreError α} {f : α → EtcdM β} {Q : Except EtcdError β → σ → Prop}
    (herror : ∀ e, Q (.error (.store e)) s) (hok : ∀ a, v = .ok a → P.Ensures i Q (f a) s) :
  P.Ensures i Q (validate v >>= f) s
  := by
  cases v with
  | error e => exact herror e
  | ok a => exact hok a rfl

/-- The call has put nothing, and has made more observations. -/
def Observing (i : ι) (o : List Observation) (s : KeySpace ι) (o' : List Observation) : Prop :=
  o ⊆ o' ∧ Settled i [] o' s

theorem throwConflict_spec {α : Type} (key : Key) (expectedRevision : Option Key)
    (actual : Option EtcdRow) (h : Settled i [] o s) :
  (keySpaceProtocol marker).Ensures i (fun r s' => ∃ e o', r = .error e ∧ Observing i o s' o')
    (throwConflict key expectedRevision actual : EtcdM α) s
  := by
  apply Protocol.Ensures.bind (visibleRevision_spec actual h)
  · rintro _ s' ⟨_, o', -, hsub, hs', -⟩
    exact Protocol.ensures_throw ⟨_, o', rfl, hsub, hs'⟩
  · rintro e s' ⟨_, _, heq, -⟩
    cases heq

/-- The conditions of the caller hold of the expected row, as it was observed. -/
structure Allowed (config : WriteOptions) (current : Option EtcdRow) (o : List Observation) :
    Prop where
  ifRevision : ∀ r, config.ifRevision = some r →
    ∃ row, current = some row ∧ row.record.revision = r ∧ VisibleIn o row
  ifAbsent : config.ifAbsent = true → ∀ row, current = some row → ExpiredIn o row

theorem VisibleIn.mono {o' : List Observation} {row : EtcdRow} (h : VisibleIn o row)
    (hsub : o ⊆ o') :
  VisibleIn o' row
  := by
  intro e he
  obtain ⟨t, ht, hlt⟩ := h e he
  exact ⟨t, hsub ht, hlt⟩

theorem ExpiredIn.mono {o' : List Observation} {row : EtcdRow} (h : ExpiredIn o row)
    (hsub : o ⊆ o') :
  ExpiredIn o' row
  := by
  obtain ⟨e, he, t, ht, hle⟩ := h
  exact ⟨e, he, t, hsub ht, hle⟩

theorem Allowed.mono {config : WriteOptions} {current : Option EtcdRow}
    {o' : List Observation} (h : Allowed config current o) (hsub : o ⊆ o') :
  Allowed config current o'
  := by
  constructor
  · intro r hr
    obtain ⟨row, hrow, hrevision, hvisible⟩ := h.ifRevision r hr
    exact ⟨row, hrow, hrevision, hvisible.mono hsub⟩
  · intro habsent row hrow
    exact (h.ifAbsent habsent row hrow).mono hsub

theorem checkAbsent_spec (key : Key) (config : WriteOptions) (current : Option EtcdRow)
    (h : Settled i [] o s) :
  (keySpaceProtocol marker).Ensures i
    (fun r s' => ∃ o', Observing i o s' o' ∧ (r = .ok () → config.ifAbsent = true →
      ∀ row, current = some row → ExpiredIn o' row))
    (checkAbsent key config current) s
  := by
  rw [checkAbsent]
  by_cases habsent : config.ifAbsent = true
  · rw [if_pos habsent]
    apply Protocol.Ensures.bind (visibleRevision_spec current h)
    · rintro v s' ⟨_, o', heq, hsub, hs', hrow⟩
      cases heq
      cases v with
      | some revision =>
          apply (throwConflict_spec key none current hs').mono
          rintro _ s'' ⟨e, o'', rfl, hsub', hs''⟩
          exact ⟨o'', ⟨List.Subset.trans hsub hsub', hs''⟩, nofun⟩
      | none =>
          refine Protocol.ensures_pure ⟨o', ⟨hsub, hs'⟩, ?_⟩
          rintro - - row rfl
          obtain hnone | ⟨row', hrow', hexpired⟩ := hrow
          · cases hnone
          · cases hrow'
            exact hexpired
    · rintro e s' ⟨_, _, heq, -⟩
      cases heq
  · rw [if_neg habsent]
    exact Protocol.ensures_pure ⟨o, ⟨List.Subset.refl o, h⟩, fun _ h => absurd h habsent⟩

theorem checkRevision_spec (key : Key) (config : WriteOptions) (current : Option EtcdRow)
    (h : Settled i [] o s) :
  (keySpaceProtocol marker).Ensures i
    (fun r s' => ∃ o', Observing i o s' o' ∧ (r = .ok () → ∀ revision,
      config.ifRevision = some revision →
        ∃ row, current = some row ∧ row.record.revision = revision ∧ VisibleIn o' row))
    (checkRevision key config current) s
  := by
  rw [checkRevision]
  split
  · apply Protocol.Ensures.bind (visibleRevision_spec current h)
    · rintro v s' ⟨_, o', heq, hsub, hs', hrow⟩
      cases heq
      by_cases hv : v = config.ifRevision
      · rw [if_neg (not_not_intro hv)]
        refine Protocol.ensures_pure ⟨o', ⟨hsub, hs'⟩, ?_⟩
        rintro - revision hrevision
        rw [hrevision] at hv
        subst hv
        exact hrow
      · rw [if_pos hv]
        apply (throwConflict_spec key config.ifRevision current hs').mono
        rintro _ s'' ⟨e, o'', rfl, hsub', hs''⟩
        exact ⟨o'', ⟨List.Subset.trans hsub hsub', hs''⟩, nofun⟩
    · rintro e s' ⟨_, _, heq, -⟩
      cases heq
  · rename_i hnone
    refine Protocol.ensures_pure ⟨o, ⟨List.Subset.refl o, h⟩, ?_⟩
    rintro - revision hrevision
    rw [hrevision] at hnone
    exact absurd rfl hnone

/-! ### The payload -/

/-- The time of expiry of a write is a valid one. -/
theorem writeExpiry_spec {expiresInMs : Option PositiveInteger}
    (httl : checkTTL expiresInMs = .ok ()) (h : Settled i [] o s) :
  (keySpaceProtocol marker).Ensures i
    (fun r s' => ∃ (expiresAt : Option Timestamp) (o' : List Observation),
      r = .ok (expiresAt.map Subtype.val) ∧ Observing i o s' o' ∧
        expiresAt.isNone = expiresInMs.isNone)
    (writeExpiry expiresInMs) s
  := by
  cases expiresInMs with
  | none => exact Protocol.ensures_pure ⟨none, o, rfl, ⟨List.Subset.refl o, h⟩, rfl⟩
  | some duration =>
      apply Protocol.Ensures.bind (dateNow_spec h)
      · rintro t s' ⟨_, heq, hs'⟩
        cases heq
        have hduration : duration.val ≤ MaximumTtlMs := by
          rw [checkTTL] at httl
          split at httl
          · cases httl
          · rename_i hbounds
            exact not_lt.mp (not_or.mp hbounds).2
        have hsafe : t.val + duration.val ≤ JsNumber.MaxSafeInteger := by
          have ht := t.property
          simp only [MaximumTtlMs] at hduration
          simp only [JsNumber.MaxSafeInteger]
          omega
        exact Protocol.ensures_pure
          ⟨some ⟨_, hsafe⟩, _, rfl, ⟨List.subset_cons_self _ _, hs'⟩, rfl⟩
      · rintro _ s' ⟨_, heq, -⟩
        cases heq

/-- The marker of a write is that of its call. -/
theorem operationId_spec (h : Settled i [] o s) :
  (keySpaceProtocol marker).Ensures i
    (fun r s' => r = .ok (marker i) ∧ Settled i [] o s') operationId s
  := by
  apply Protocol.ensures_request (P := keySpaceProtocol marker)
  · rintro _ _ ⟨⟩
  · intro s₁ t s₂ hwaits _ hserves
    cases hserves with
    | delivered hdelivers =>
        cases hdelivers with
        | randomUUID => exact ⟨rfl, h.waits hwaits⟩

/-- A write has a lease if its record expires. -/
theorem writeLease_spec (expiresInMs : Option PositiveInteger) (h : Settled i [] o s) :
  (keySpaceProtocol marker).Ensures i
    (fun r s' => Settled i [] o s' ∧ ∀ lease, r = .ok lease →
      expiresInMs.isNone = decide (lease = PersistentLease))
    (writeLease expiresInMs) s
  := by
  cases expiresInMs with
  | none =>
      refine Protocol.ensures_pure ⟨h, ?_⟩
      rintro _ ⟨⟩
      rfl
  | some duration =>
      apply (grantLease_spec kept_settled _ h).mono
      rintro r s' ⟨hs', hlease⟩
      refine ⟨hs', ?_⟩
      rintro lease rfl
      simpa using hlease lease rfl

omit [DecidableEq ι] in
/-- The payload of a validated write is prepared. -/
theorem prepared_encodeRecordPayload {textBytes : Json → ℕ} {config : WriteOptions}
    {input : StoreRecordInputSnapshot} {key : Key} {payload : JsonText} {lease : ℤ}
    {expiresAt : Option Timestamp} (hkey : storeKey input.key.val = .ok key)
    (hpayload : encodeRecordPayload textBytes input (marker i) (expiresAt.map Subtype.val) =
      .ok payload)
    (hlease : expiresAt.isNone = decide (lease = PersistentLease)) :
  Prepared marker i ⟨config, input, key, payload, lease, expiresAt.map Subtype.val⟩
  := by
  obtain rfl : key = input.key := Subtype.ext (storeKey_eq_ok hkey)
  rw [encodeRecordPayload] at hpayload
  split at hpayload
  · cases hpayload
  · rename_i hvalue
    split at hpayload
    · cases hpayload
    · cases hpayload
      constructor
      case marker => exact markerOf_payloadDocument _ _ _ _
      case row =>
        intro n
        refine ⟨_, decodeRow_payloadDocument hkey (marker i) (not_lt.mp hvalue) input.metadata
          expiresAt hlease (Nat.succ_ne_zero n), ?_⟩
        have hsnapshot := snapshotStoreRecord_toCandidate
          ⟨input.key, input.value, input.metadata, revisionText (n + 1), expiresAt⟩
        rw [writtenRecord, Option.map_map]
        exact hsnapshot

/-! ### Rounds -/

/-- An attempt is rejected with an error that reports no conflict. -/
theorem rejectAttempt_spec {α : Type} (lease : ℤ) {value : EtcdError} (h : Plain value) :
  (keySpaceProtocol marker).Ensures i
    (fun r _ => ∃ e, r = .error e ∧ reportsConflict e = false)
    (rejectAttempt lease value : EtcdM α) s
  := by
  rw [rejectAttempt.eq_def]
  split
  · exact Protocol.ensures_throw ⟨_, rfl, rfl⟩
  · exact Protocol.ensures_throw ⟨_, rfl, rfl⟩
  · split
    · apply (rejectAfterLeaseCleanup_spec kept_true lease value trivial).mono
      rintro _ s' ⟨e, rfl, -, hconflict⟩
      exact ⟨e, rfl, hconflict h⟩
    · exact Protocol.ensures_throw ⟨_, rfl, h.not_conflict⟩

/-- A put over an allowed row is a write under the conditions of the caller. -/
theorem Committed.outcome {w : Writing} {current : Option EtcdRow} {revision : Key}
    (h : Committed i w current o revision s) (hprepared : Prepared marker i w)
    (hallowed : Allowed w.config current o) :
  ∃ record c o', writtenRecord w.input revision w.expiresAt = .ok record ∧
    Settled i [c] o' s ∧ WrittenBy w.config record o' c
  := by
  obtain ⟨c, n, o', hsettled, hsub, hput, hafter, rfl⟩ := h
  obtain ⟨record, hrow, hrecord⟩ := hprepared.row n
  refine ⟨record, c, o', hrecord, hsettled, ?_⟩
  obtain ⟨hkey, hrevision, -⟩ := decodeRow_eq_some hrow
  constructor
  case key =>
    rw [hput.key]
    exact (Subtype.ext hkey).symm
  case after => exact ⟨_, hafter, hrevision, hrow⟩
  case ifRevision =>
    intro r hr
    obtain ⟨row, hcurrent, hrow', hvisible⟩ := hallowed.ifRevision r hr
    obtain ⟨kv, hbefore, hkv, hdecode⟩ := hput.present row hcurrent
    obtain ⟨-, hrevision', -⟩ := decodeRow_eq_some hdecode
    refine ⟨kv, row, hbefore, hrevision'.symm.trans hrow', ?_, hdecode, hvisible.mono hsub⟩
    rw [hput.key]
    exact hsub hkv
  case ifAbsent =>
    intro habsent kv hbefore
    cases hcurrent : current with
    | none =>
        rw [hput.absent hcurrent] at hbefore
        cases hbefore
    | some row =>
        obtain ⟨kv', hbefore', -, hdecode⟩ := hput.present row hcurrent
        rw [hbefore] at hbefore'
        cases hbefore'
        obtain ⟨e, he, t, ht, hle⟩ := hallowed.ifAbsent habsent row hcurrent
        obtain ⟨t', hclock, hle'⟩ := hput.clock t ht
        exact ⟨row, e, t', hdecode, he, hclock, hle.trans hle'⟩

/-- The rounds of a write put its record at most once. -/
theorem writeRounds_spec {w : Writing} (hprepared : Prepared marker i w) (rounds : ℕ)
    {current : Option EtcdRow} (hseen : Seen o w.key current)
    (hallowed : Allowed w.config current o) (h : Settled i [] o s) :
  (keySpaceProtocol marker).Ensures i (WriteOutcome i w.config)
    (writeRounds w rounds current) s
  := by
  induction rounds generalizing current o s with
  | zero => exact Protocol.ensures_unfinished
  | succ rounds ih =>
      rw [writeRounds]
      have hattempt : (keySpaceProtocol marker).Ensures i
          (fun r s' =>
            (∀ attempt, r = .ok attempt →
              if attempt.committed then Committed i w current o attempt.revision s'
              else Missed i w.key o attempt.current s') ∧
            ∀ e, r = .error e → reportsConflict e = false)
          (tryCatch (putAttempt w.key w.payload w.lease current) (rejectAttempt w.lease)) s := by
        apply Protocol.Ensures.tryCatch (putAttempt_spec hprepared hseen h)
        · intro attempt s' hattempt
          constructor
          · rintro _ ⟨⟩
            exact hattempt
          · rintro _ ⟨⟩
        · intro e s' hplain
          apply (rejectAttempt_spec w.lease hplain).mono
          rintro _ s₁ ⟨e', rfl, hconflict⟩
          constructor
          · rintro _ ⟨⟩
          · rintro _ ⟨⟩
            exact hconflict
      apply Protocol.Ensures.bind hattempt
      · rintro attempt s' ⟨hs', -⟩
        have hs' := hs' attempt rfl
        split
        · rename_i hcommitted
          simp only [hcommitted, if_true] at hs'
          obtain ⟨record, c, o', hrecord, hsettled, hwritten⟩ := hs'.outcome hprepared hallowed
          apply Protocol.Ensures.bind (cleanupCommittedLease_spec kept_settled _ _ _ hsettled)
          · rintro _ s₁ ⟨hs₁, -⟩
            rw [hrecord]
            exact Protocol.ensures_settle ⟨c, o', hs₁, hwritten⟩
          · rintro e s₁ ⟨-, hplain⟩ hconflict
            rw [(hplain e rfl).not_conflict] at hconflict
            cases hconflict
        · rename_i hcommitted
          simp only [hcommitted] at hs'
          obtain ⟨o', hsettled, hsub, hmet⟩ := hs'
          split
          · apply Protocol.Ensures.bind (visibleRevision_spec _ hsettled)
            · rintro v s₁ ⟨_, o₁, -, -, hs₁, -⟩
              apply (rejectAfterLeaseCleanup_spec kept_settled _ _ hs₁).mono
              rintro _ s₂ ⟨e, rfl, hs₂, -⟩
              exact hs₂.rejected e
            · rintro e s₁ ⟨_, _, heq, -⟩
              cases heq
          · -- no condition of the caller forbids to replace the row that was met
            rename_i hunconditional
            apply ih hmet _ hsettled
            constructor
            · intro r hr
              rw [hr] at hunconditional
              exact absurd (.inr rfl) hunconditional
            · intro habsent
              exact absurd (.inl habsent) hunconditional
      · rintro e s' ⟨-, hconflict⟩ hreports
        rw [hconflict e rfl] at hreports
        cases hreports

/-! ### Writes -/

/-- A validated write puts its record under the conditions of the caller, or is rejected. -/
theorem write_spec (textBytes : Json → ℕ) (rounds : ℕ) (ctx : Context)
    (rawRecord : StoreRecordInput) (reducers : List WriteOption) (h : Settled i [] o s) :
  (keySpaceProtocol marker).Ensures i
    (fun r s' => match r with
      | .ok record => ∃ config c o', writeOptions reducers = .ok config ∧
          Settled i [c] o' s' ∧ WrittenBy config record o' c
      | .error e => Rejected i e s')
    (write textBytes rounds ctx rawRecord reducers) s
  := by
  apply ensures_validate_bind fun e => h.rejected _
  intro config hconfig
  apply ensures_validate_bind fun e => h.rejected _
  intro _ httl
  apply ensures_validate_bind fun e => h.rejected _
  intro input _
  apply ensures_validate_bind fun e => h.rejected _
  intro key hkey
  apply ensures_validate_bind fun e => h.rejected _
  intro _ _
  -- the row is read and the conditions are checked against it
  apply Protocol.Ensures.bind (rangeExact_spec .write key h)
  case herror =>
    rintro e s' ⟨o', -, hs', -⟩
    exact hs'.rejected _
  rintro range s₁ ⟨o₁, hsub₁, hs₁, hseen⟩
  apply Protocol.Ensures.bind (checkAbsent_spec key config range.row hs₁)
  case herror =>
    rintro e s' ⟨o', ⟨-, hs'⟩, -⟩
    exact hs'.rejected _
  rintro _ s₂ ⟨o₂, ⟨hsub₂, hs₂⟩, habsent⟩
  apply Protocol.Ensures.bind (checkRevision_spec key config range.row hs₂)
  case herror =>
    rintro e s' ⟨o', ⟨-, hs'⟩, -⟩
    exact hs'.rejected _
  rintro _ s₃ ⟨o₃, ⟨hsub₃, hs₃⟩, hrevision⟩
  have hallowed : Allowed config range.row o₃ := by
    constructor
    · exact hrevision rfl
    · intro hconfig' row hrow
      exact (habsent rfl hconfig' row hrow).mono hsub₃
  -- the payload is prepared, with its time of expiry, its marker and its lease
  apply Protocol.Ensures.bind (writeExpiry_spec httl hs₃)
  case herror =>
    rintro e s' ⟨_, _, heq, -⟩
    cases heq
  rintro _ s₄ ⟨expiresAt, o₄, heq, ⟨hsub₄, hs₄⟩, hexpires⟩
  cases heq
  apply Protocol.Ensures.bind (operationId_spec hs₄)
  case herror =>
    rintro e s' ⟨heq, -⟩
    cases heq
  rintro _ s₅ ⟨heq, hs₅⟩
  cases heq
  apply ensures_validate_bind fun e => hs₅.rejected _
  intro payload hpayload
  apply Protocol.Ensures.bind (writeLease_spec config.expiresInMs hs₅)
  case herror =>
    rintro e s' ⟨hs', -⟩
    exact hs'.rejected _
  rintro lease s₆ ⟨hs₆, hlease⟩
  have hprepared : Prepared marker i
      ⟨config, input, key, payload, lease, expiresAt.map Subtype.val⟩ :=
    prepared_encodeRecordPayload hkey hpayload (hexpires.trans (hlease lease rfl))
  have hsub : o₁ ⊆ o₄ := List.Subset.trans hsub₂ (List.Subset.trans hsub₃ hsub₄)
  apply (writeRounds_spec hprepared rounds (hseen.mono hsub) (hallowed.mono hsub₄) hs₆).mono
  intro r s' hr
  cases r with
  | ok record =>
      obtain ⟨c, o', hsettled, hwritten⟩ := hr
      exact ⟨config, c, o', hconfig, hsettled, hwritten⟩
  | error e => exact hr

/-- What a call of a write establishes: the record it returns was put by its only change,
under the conditions of the caller, and it throws a conflict only if it has put nothing
and will not. -/
def Linearized (i : ι) (options : List WriteOption) (r : Except EtcdError Value)
    (s : KeySpace ι) : Prop :=
  match r with
  | .ok (.written record) => ∃ config c, writeOptions options = .ok config ∧
      changesOf s i = [c] ∧ flightsOf s i = [] ∧ WrittenBy config record (s.observed i) c
  | .ok _ => False
  | .error e => reportsConflict e = true → changesOf s i = [] ∧ flightsOf s i = []

theorem stable_linearized (options : List WriteOption) (r : Except EtcdError Value) :
  (keySpaceProtocol marker).Stable i (Linearized i options r)
  := by
  intro s s' hinterferes h
  match r, h with
  | .ok (.written record), ⟨config, c, hconfig, hchanges, hflights, hwritten⟩ =>
      have hsame := sameView_interferes hinterferes hflights
      refine ⟨config, c, hconfig, hsame.changes.trans hchanges,
        hsame.flights.trans hflights, ?_⟩
      rw [hsame.observed]
      exact hwritten
  | .error e, h =>
      intro hconflict
      obtain ⟨hchanges, hflights⟩ := h hconflict
      have hsame := sameView_interferes hinterferes hflights
      exact ⟨hsame.changes.trans hchanges, hsame.flights.trans hflights⟩

/-- What a call establishes: writes are linearized. -/
def Performed (i : ι) (call : Call) (r : Except EtcdError Value) (s : KeySpace ι) : Prop :=
  match call with
  | .write _ options => Linearized i options r s
  | _ => True

theorem stable_performed (call : Call) (r : Except EtcdError Value) :
  (keySpaceProtocol marker).Stable i (Performed i call r)
  := by
  cases call with
  | write record options => exact stable_linearized options r
  | read | delete => exact fun _ h => h

omit [DecidableEq ι] in
theorem sends_of_putsNothing (q : Request) (h : PutsNothing q) :
  Sends marker i q
  := by
  intro operation x hq key value lease hput
  exact absurd hput (h operation x hq key value lease)

theorem perform_spec (textBytes : Json → ℕ) (v : Invocation) (h : Settled i [] o s) :
  (keySpaceProtocol marker).Establishes i (Performed i v.call) (perform textBytes v).run s
  := by
  obtain ⟨ctx, call, rounds⟩ := v
  cases call with
  | read key =>
      refine Protocol.Establishes.mono (fun _ _ _ => trivial) (Protocol.establishes_only ?_)
      apply Prog.Only.mono _ (fun q hq => sends_of_putsNothing q hq)
      exact (only_read ctx key).bind fun _ => only_pure _
  | delete key options =>
      refine Protocol.Establishes.mono (fun _ _ _ => trivial) (Protocol.establishes_only ?_)
      apply Prog.Only.mono _ (fun q hq => sends_of_putsNothing q hq)
      exact (only_delete rounds ctx key options).bind fun _ => only_pure _
  | write record options =>
      apply Protocol.Ensures.bind (write_spec textBytes rounds ctx record options h)
      · rintro record' s' ⟨config, c, o', hconfig, hs', hwritten⟩
        refine Protocol.ensures_pure ⟨config, c, hconfig, hs'.changes, hs'.flights, ?_⟩
        rw [hs'.observed]
        exact hwritten
      · intro e s' hrejected hconflict
        obtain ⟨o', hs'⟩ := hrejected hconflict
        exact ⟨hs'.changes, hs'.flights⟩

omit [DecidableEq ι] in
theorem Unused.settled [DecidableEq ι] (h : Unused marker s) (i : ι) :
  Settled i [] [] s
  := by
  constructor
  case changes => simp [changesOf, h.changes]
  case flights => simp [flightsOf, h.inFlight]
  case observed => exact h.observed i
  case ordered => exact fun ht => absurd ht List.not_mem_nil

/-- The writes of any number of clients are linearizable, in every interleaving of their
calls with the calls of others, with lost responses and with the ends of leases. -/
theorem writes_linearizable (marker : ι ↪ Key) (textBytes : Json → ℕ) (calls : ι → Invocation)
    {s₀ : KeySpace ι} (hstart : Unused marker s₀)
    {pool : Pool ι Request Reply (KeySpace ι) (Except EtcdError Value)}
    (hrun : Pool.Reaches (keySpace marker) ⟨s₀, fun i => (perform textBytes (calls i)).run⟩ pool)
    {i : ι} {record : StoreRecordInput} {options : List WriteOption}
    (hcall : (calls i).call = .write record options) {r : Except EtcdError Value}
    (hreturn : pool.calls i = .ret r) :
  Linearized i options r pool.state
  := by
  have hverifies : (keySpaceProtocol marker).Verifies (fun i => Performed i (calls i).call)
      ⟨s₀, fun i => (perform textBytes (calls i)).run⟩ :=
    ⟨hstart.consistent, fun i => perform_spec textBytes (calls i) (hstart.settled i)⟩
  have hperformed := (hverifies.reaches (fun i => stable_performed (calls i).call) hrun).returned
    hreturn
  rw [hcall] at hperformed
  exact hperformed

/-! ### A write of an empty key space -/

def emptyKeySpace : KeySpace Unit := ⟨fun _ => none, 1, [], [], [], fun _ => []⟩

def firstMarker : Unit ↪ Key := ⟨fun _ => ⟨name "m", by decide +kernel⟩, fun _ _ _ => rfl⟩

theorem emptyKeySpace_unused :
  Unused firstMarker emptyKeySpace
  := ⟨nofun, nofun, fun _ => nofun, rfl, rfl, fun _ => rfl⟩

def firstWrite : Invocation := ⟨background, .write ⟨name "k", [1], none⟩ [ifAbsent], 1⟩

/-- The write reads the absent row, draws its marker and puts the record. -/
theorem writes_linearizable_first :
  ∃ (pool : Pool Unit Request Reply (KeySpace Unit) (Except EtcdError Value)) (r : StoreRecord),
    pool.calls () = .ret (.ok (.written r)) ∧
      Linearized () [ifAbsent] (.ok (.written r)) pool.state
  := by
  have hrun : ∃ (pool : Pool Unit Request Reply (KeySpace Unit) (Except EtcdError Value))
      (r : StoreRecord), Pool.Reaches (keySpace firstMarker)
        ⟨emptyKeySpace, fun _ => (perform (fun _ => 0) firstWrite).run⟩ pool ∧
          pool.calls () = .ret (.ok (.written r)) :=
    ⟨_, _, .tail (.tail (.single (.call () rfl (.delivered (.post .range))))
      (.call () rfl (.delivered .randomUUID))) (.call () rfl (.delivered (.post .txn))), rfl⟩
  obtain ⟨pool, r, hreaches, hreturn⟩ := hrun
  exact ⟨pool, r, hreturn, writes_linearizable firstMarker (fun _ => 0) (fun _ => firstWrite)
    emptyKeySpace_unused hreaches rfl hreturn⟩

end Store.Etcd
