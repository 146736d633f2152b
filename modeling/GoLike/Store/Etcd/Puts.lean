import GoLike.Store.Etcd.Steps

/-!
# What a put of the etcd Store establishes

A transaction that puts a row over an observed one either takes effect once, replacing that
very row, or never. When its response is lost it is read back: a row with the payload of
the put, which carries the marker of the call, was put by this call.
-/

open Interleave

namespace Store.Etcd

variable {ι : Type} [DecidableEq ι] {marker : ι ↪ Key} {i : ι} {s s' : KeySpace ι}
  {changes : List (Change ι)} {o : List Observation}

/-! ### Leases -/

/-- The property depends on what the call sees, and interference does not affect it. -/
structure Kept (marker : ι ↪ Key) (i : ι) (K : KeySpace ι → Prop) : Prop where
  view : ∀ {s s'}, SameView i s s' → K s → K s'
  stable : (keySpaceProtocol marker).Stable i K

theorem kept_settled :
  Kept marker i (Settled i changes o)
  := ⟨fun hsame h => h.sameView hsame, stable_settled marker i changes o⟩

theorem kept_true :
  Kept marker i (fun _ => True)
  := ⟨fun _ h => h, fun _ h => h⟩

variable {K : KeySpace ι → Prop}

/-- A request without a transaction whose response is not an observation. -/
theorem post_spec (hK : Kept marker i K) {p : Post} (hquiet : Quiet p)
    (hnote : ∀ s r, KeySpace.note s i p r = s) (h : K s) :
  (keySpaceProtocol marker).Ensures i (fun r s' => K s' ∧ ∀ e, r = .error e → Plain e)
    (post p) s
  := by
  refine Protocol.ensures_request_bind (P := keySpaceProtocol marker) (sends_quiet hquiet) ?_
  intro s₁ r s₂ hwaits hinv hserves
  apply Protocol.ensures_settle
  have hs₁ : K s₁ := Protocol.Stable.waits _ hK.stable hwaits h
  obtain ⟨f, rfl, hplain, hsame⟩ | ⟨s'', happlies, hsame, rfl⟩ := serves_quiet hquiet hserves
  · refine ⟨hK.view hsame hs₁, ?_⟩
    rintro e ⟨⟩
    exact hplain
  · rw [hnote]
    refine ⟨hK.view hsame hs₁, ?_⟩
    intro e he
    cases happlies with
    | txn => exact hquiet.elim
    | leaseMissing hid =>
        cases he
        trivial
    | _ => cases he

theorem grantLease_spec (hK : Kept marker i K) (ttl : ℕ) (h : K s) :
  (keySpaceProtocol marker).Ensures i
    (fun r s' => K s' ∧ ∀ lease, r = .ok lease → lease ≠ PersistentLease)
    (grantLease ttl) s
  := by
  apply Protocol.Ensures.bind (post_spec hK (p := .leaseGrant ttl) trivial (fun _ _ => rfl) h)
  · rintro response s' ⟨hs', -⟩
    apply Protocol.ensures_settle
    refine ⟨hs', ?_⟩
    by_cases hvalid : response.id ≠ 0 ∧ response.ttl > 0
    · rw [if_pos hvalid]
      rintro _ ⟨⟩
      exact hvalid.1
    · rw [if_neg hvalid]
      exact fun _ => nofun
  · rintro e s' ⟨hs', -⟩
    exact ⟨hs', fun _ => nofun⟩

theorem releaseLease_spec (hK : Kept marker i K) (lease : ℤ) (h : K s) :
  (keySpaceProtocol marker).Ensures i (fun r s' => K s' ∧ ∀ e, r = .error e → Plain e)
    (releaseLease lease) s
  := by
  rw [releaseLease]
  split
  · exact Protocol.ensures_pure ⟨h, nofun⟩
  · have hrevoke : (keySpaceProtocol marker).Ensures i
        (fun r s' => K s' ∧ ∀ e, r = .error e → Plain e) (revokeLease lease) s := by
      apply Protocol.Ensures.bind
        (post_spec hK (p := .leaseRevoke lease) trivial (fun _ _ => rfl) h)
      · rintro _ s' ⟨hs', -⟩
        exact Protocol.ensures_pure ⟨hs', nofun⟩
      · rintro e s' ⟨hs', hplain⟩
        refine ⟨hs', ?_⟩
        rintro e' ⟨⟩
        exact hplain e rfl
    apply Protocol.Ensures.tryCatch hrevoke
    · rintro _ s' ⟨hs', -⟩
      exact ⟨hs', nofun⟩
    · rintro e s' ⟨hs', hplain⟩
      split
      · exact Protocol.ensures_pure ⟨hs', nofun⟩
      · refine Protocol.ensures_throw ⟨hs', ?_⟩
        rintro e' ⟨⟩
        exact hplain e rfl

theorem reportsConflict_singleton {e : EtcdError} (h : Plain e) (message : String) :
  reportsConflict (.aggregate [e] message) = false
  := by
  cases e with
  | store e =>
      cases e with
      | conflict c => exact h.elim
      | _ => rfl
  | _ => rfl

theorem reportsConflict_aggregate {primary cleanup : EtcdError} (hprimary : Plain primary)
    (hcleanup : Plain cleanup) (message : String) :
  reportsConflict (.aggregate [primary, cleanup] message) = false
  := by
  have happend : reportsConflict (.aggregate [primary, cleanup] message) =
      (reportsConflict (.aggregate [primary] message) ||
        reportsConflict (.aggregate [cleanup] message)) := by
    simp only [reportsConflict, List.any_cons, List.any_nil, Bool.or_false]
  rw [happend, reportsConflict_singleton hprimary, reportsConflict_singleton hcleanup]
  rfl

/-- A rejected write throws, and reports a conflict only if it is rejected for one. -/
theorem rejectAfterLeaseCleanup_spec {α : Type} (hK : Kept marker i K) (lease : ℤ)
    (primary : EtcdError) (h : K s) :
  (keySpaceProtocol marker).Ensures i
    (fun r s' => ∃ e, r = .error e ∧ K s' ∧ (Plain primary → reportsConflict e = false))
    (rejectAfterLeaseCleanup lease primary : EtcdM α) s
  := by
  have hrelease : (keySpaceProtocol marker).Ensures i
      (fun r s' => K s' ∧ ∀ e, r = .error e → Plain primary → reportsConflict e = false)
      (tryCatch (releaseLease lease) (fun cleanup =>
        throw (.aggregate [primary, cleanup] "etcd Store write and lease cleanup failed")))
      s := by
    apply Protocol.Ensures.tryCatch (releaseLease_spec hK lease h)
    · rintro _ s' ⟨hs', -⟩
      exact ⟨hs', nofun⟩
    · rintro e s' ⟨hs', hplain⟩
      refine Protocol.ensures_throw ⟨hs', ?_⟩
      rintro e' ⟨⟩ hprimary
      exact reportsConflict_aggregate hprimary (hplain e rfl) _
  apply Protocol.Ensures.bind hrelease
  · rintro _ s' ⟨hs', -⟩
    exact Protocol.ensures_throw ⟨_, rfl, hs', fun hprimary => hprimary.not_conflict⟩
  · rintro e s' ⟨hs', hconflict⟩
    exact ⟨e, rfl, hs', hconflict e rfl⟩

theorem cleanupCommittedLease_spec (hK : Kept marker i K) (operation : Operation)
    (lease replacementLease : ℤ) (h : K s) :
  (keySpaceProtocol marker).Ensures i (fun r s' => K s' ∧ ∀ e, r = .error e → Plain e)
    (cleanupCommittedLease operation lease replacementLease) s
  := by
  rw [cleanupCommittedLease]
  split
  · exact Protocol.ensures_pure ⟨h, nofun⟩
  · apply Protocol.Ensures.tryCatch (releaseLease_spec hK lease h)
    · rintro _ s' ⟨hs', -⟩
      exact ⟨hs', nofun⟩
    · rintro e s' ⟨hs', -⟩
      refine Protocol.ensures_throw ⟨hs', ?_⟩
      rintro e' ⟨⟩
      trivial

/-! ### Transactions -/

/-- The transaction of a round of a write. -/
def putTxn (w : Writing) (current : Option EtcdRow) : Txn :=
  ⟨expectedRow w.key current, .put w.key w.payload w.lease, w.key⟩

/-- The change put the payload of a write over an expected row that had been observed. -/
structure PutOver (w : Writing) (current : Option EtcdRow) (o : List Observation)
    (c : Change ι) : Prop where
  key : c.key = w.key
  after : ∃ n, c.after = some ⟨w.key.val, n + 1, w.lease, w.payload⟩
  clock : ∀ t, .time t ∈ o → ∃ t', c.clock = some t' ∧ t ≤ t'
  absent : current = none → c.before = none
  present : ∀ row, current = some row →
    ∃ kv, c.before = some kv ∧ .row w.key (some kv) ∈ o ∧ decodeRow kv = some row

omit [DecidableEq ι] in
/-- The condition that a key has an expected row that was observed holds for this row
only. -/
theorem holds_expectedRow (h : Consistent marker s) {key : Key} {current : Option EtcdRow}
    (hsub : o ⊆ s.observed i) (hseen : Seen o key current)
    (hholds : s.holds (expectedRow key current) = true) :
  (current = none → s.rows key = none) ∧
    ∀ row, current = some row →
      ∃ kv, s.rows key = some kv ∧ .row key (some kv) ∈ o ∧ decodeRow kv = some row
  := by
  cases current with
  | none =>
      refine ⟨fun _ => ?_, nofun⟩
      simpa [expectedRow, KeySpace.holds] using hholds
  | some row =>
      refine ⟨nofun, ?_⟩
      rintro _ ⟨⟩
      obtain ⟨kv, hkv, hdecode⟩ := hseen row rfl
      obtain ⟨-, hrevision, -⟩ := decodeRow_eq_some hdecode
      simp only [expectedRow, KeySpace.holds, hrevision, decide_eq_true_eq] at hholds
      have hmod := revisionText_injective hholds
      cases hrow : s.rows key with
      | none =>
          rw [hrow] at hmod
          exact absurd hmod.symm (modRevision_ne_zero hdecode)
      | some kv' =>
          rw [hrow] at hmod
          obtain rfl := (h.observed (hsub hkv)).same kv' hrow hmod
          exact ⟨kv', rfl, hkv, hdecode⟩

/-- The transaction of a round fails, or meets another row, or puts its payload. -/
theorem execute_put (h : Consistent marker s) {w : Writing} {current : Option EtcdRow}
    (hsub : o ⊆ s.observed i) (hseen : Seen o w.key current)
    (hordered : Ordered (s.observed i)) (operation : Operation) :
  s.execute i operation (putTxn w current) = (.error (.http operation 404 (some 5)), s) ∨
    s.execute i operation (putTxn w current) =
      (.ok ⟨s.revision, false, [.range (s.range w.key)]⟩, s) ∨
    ∃ c : Change ι, PutOver w current o c ∧
      c.after = some ⟨w.key.val, s.revision + 1, w.lease, w.payload⟩ ∧
      s.execute i operation (putTxn w current) =
        (.ok ⟨s.revision + 1, true, [.put (s.revision + 1) (s.rows w.key)]⟩,
          s.change i w.key c.after) ∧
      changesOf (s.change i w.key c.after) i = c :: changesOf s i
  := by
  rw [KeySpace.execute]
  by_cases hholds : s.holds (putTxn w current).compare = true
  · rw [if_pos hholds]
    by_cases hlease : s.missesLease (putTxn w current).success = true
    · rw [if_pos hlease]
      exact .inl rfl
    · rw [if_neg hlease]
      right; right
      obtain ⟨habsent, hpresent⟩ := holds_expectedRow h hsub hseen hholds
      use ⟨i, w.key, s.rows w.key, some ⟨w.key.val, s.revision + 1, w.lease, w.payload⟩,
        clockOf (s.observed i)⟩
      refine ⟨?_, rfl, rfl, changesOf_change _ _⟩
      constructor
      case key => rfl
      case after => exact ⟨s.revision, rfl⟩
      case clock =>
        intro t ht
        exact hordered (hsub ht)
      case absent => exact habsent
      case present => exact hpresent
  · rw [if_neg hholds]
    exact .inr (.inl rfl)

/-- The payload of a write has the marker of its call and decodes to the record that the
write returns. -/
structure Prepared (marker : ι ↪ Key) (i : ι) (w : Writing) : Prop where
  marker : markerOf w.payload = some (marker i).val
  row : ∀ n, ∃ record,
    decodeRow ⟨w.key.val, n + 1, w.lease, w.payload⟩ = some ⟨record, w.payload, w.lease⟩ ∧
      writtenRecord w.input (revisionText (n + 1)) w.expiresAt = .ok record

omit [DecidableEq ι] in
theorem Prepared.sends {w : Writing} (h : Prepared marker i w) (operation : Operation)
    (current : Option EtcdRow) :
  Sends marker i (.post (.txn operation (putTxn w current)))
  := by
  rintro _ _ ⟨⟩ key value lease ⟨⟩ n
  obtain ⟨record, hrow, -⟩ := h.row n
  exact ⟨rfl, h.marker, _, hrow⟩

/-! ### Lost responses -/

/-- The put of a round took effect once, or did not take effect, and may do so later. -/
structure Unsure (i : ι) (w : Writing) (current : Option EtcdRow) (o : List Observation)
    (s : KeySpace ι) : Prop where
  observed : o ⊆ s.observed i
  ordered : Ordered (s.observed i)
  outcome : (changesOf s i = [] ∧ (flightsOf s i = [] ∨ flightsOf s i = [putTxn w current])) ∨
    ∃ c, changesOf s i = [c] ∧ PutOver w current o c ∧ flightsOf s i = []

variable {w : Writing} {current : Option EtcdRow}

theorem Unsure.sameView (h : Unsure i w current o s) (hsame : SameView i s s') :
  Unsure i w current o s'
  := by
  constructor
  · rw [hsame.observed]
    exact h.observed
  · rw [hsame.observed]
    exact h.ordered
  · rw [hsame.changes, hsame.flights]
    exact h.outcome

theorem Settled.unsure (h : Settled i [] o s) {o' : List Observation} (hsub : o' ⊆ o) :
  Unsure i w current o' s
  := by
  constructor
  · rw [h.observed]
    exact hsub
  · rw [h.observed]
    exact h.ordered
  · exact .inl ⟨h.changes, .inl h.flights⟩

/-- The transaction of a round takes effect, and its response is not known. -/
theorem unsure_execute (hinv : Consistent marker s) (hsub : o ⊆ s.observed i)
    (hseen : Seen o w.key current) (hordered : Ordered (s.observed i))
    (hchanges : changesOf s i = []) (operation : Operation)
    (hchanges' : changesOf s' i = changesOf (s.execute i operation (putTxn w current)).2 i)
    (hobserved : s'.observed i = s.observed i) (hflights : flightsOf s' i = []) :
  Unsure i w current o s'
  := by
  constructor
  · rw [hobserved]
    exact hsub
  · rw [hobserved]
    exact hordered
  · rw [hchanges']
    obtain heq | heq | ⟨c, hput, -, heq, hc⟩ := execute_put hinv hsub hseen hordered operation
    · rw [heq]
      exact .inl ⟨hchanges, .inl hflights⟩
    · rw [heq]
      exact .inl ⟨hchanges, .inl hflights⟩
    · rw [heq]
      dsimp only
      rw [hc, hchanges]
      exact .inr ⟨c, rfl, hput, hflights⟩

theorem flightsOf_removed {x : Txn} {l₁ l₂ : List (ι × Txn)}
    (hflight : s.inFlight = l₁ ++ (i, x) :: l₂) (hone : flightsOf s i = [x])
    (hremoved : s'.inFlight = l₁ ++ l₂) :
  flightsOf s' i = []
  := by
  rw [flightsOf, hflight] at hone
  simp only [List.filter_append, List.filter_cons, decide_true, if_true, List.map_append,
    List.map_cons] at hone
  have hlength := congrArg List.length hone
  simp only [List.length_append, List.length_cons, List.length_map, List.length_nil] at hlength
  rw [flightsOf, hremoved, List.filter_append, List.map_append, ← List.length_eq_zero_iff]
  simp only [List.length_append, List.length_map]
  omega

/-- What is known of the put of a round stays so when the put takes effect later. -/
theorem stable_unsure (hseen : Seen o w.key current) :
  (keySpaceProtocol marker).Stable i (Unsure i w current o)
  := by
  intro s s' hinterferes h
  cases hinterferes with
  | call hother hinv hsends hserves => exact h.sameView (sameView_serves hother hserves)
  | move hinv hmoves =>
      cases hmoves with
      | leaseEnds lease removed => exact h.sameView (sameView_withoutLease i s lease removed)
      | @late j x l₁ l₂ operation hflight =>
          obtain hsame | ⟨rfl, hmem⟩ := view_late (i := i) operation hflight
          · exact h.sameView hsame
          · obtain ⟨hchanges, hnone | hone⟩ | ⟨c, -, -, hnone⟩ := h.outcome
            · rw [hnone] at hmem
              cases hmem
            · -- the only transaction that can take effect is the one of the round
              rw [hone, List.mem_singleton] at hmem
              subst hmem
              refine unsure_execute hinv h.observed hseen h.ordered hchanges operation rfl
                (congrFun (observed_execute operation _) j) ?_
              exact flightsOf_removed hflight hone rfl
            · rw [hnone] at hmem
              cases hmem

/-! ### Attempts -/

/-- The call has put its payload over an expected row, and knows the revision. -/
def Committed (i : ι) (w : Writing) (current : Option EtcdRow) (o : List Observation)
    (revision : Key) (s : KeySpace ι) : Prop :=
  ∃ c n o', Settled i [c] o' s ∧ o ⊆ o' ∧ PutOver w current o c ∧
    c.after = some ⟨w.key.val, n + 1, w.lease, w.payload⟩ ∧ revision = revisionText (n + 1)

/-- The call has put nothing, and has observed another row. -/
def Missed (i : ι) (key : Key) (o : List Observation) (met : Option EtcdRow)
    (s : KeySpace ι) : Prop :=
  ∃ o', Settled i [] o' s ∧ o ⊆ o' ∧ Seen o' key met

omit [DecidableEq ι] in
theorem failedTransaction_range {response : TxnResponse} {key : Key}
    {outcome : TransactionOutcome}
    (h : failedTransaction response (.range (s.range key)) key = some outcome) :
  outcome.succeeded = false ∧ Seen [.row key (s.rows key)] key outcome.current
  := by
  simp only [failedTransaction, Option.bind_eq_bind, Option.bind_eq_some_iff,
    Option.some.injEq] at h
  obtain ⟨_, -, range, hrange, rfl⟩ := h
  exact ⟨rfl, seen_range hrange⟩

omit [DecidableEq ι] in
theorem putOutcome_put {revision : ℕ} {previous : Option KeyValue} {key : Key}
    {outcome : TransactionOutcome}
    (h : putOutcome ⟨revision, true, [.put revision previous]⟩ key current = some outcome) :
  outcome.succeeded = true ∧ outcome.revision = revision
  := by
  simp only [putOutcome, Option.bind_eq_bind, Option.bind_eq_some_iff, Option.some.injEq] at h
  obtain ⟨_, -, _, -, _, -, rfl⟩ := h
  exact ⟨rfl, rfl⟩

/-- A put over an expected row takes effect, meets another row, or fails. -/
theorem transactPut_spec (hprepared : Prepared marker i w) (hseen : Seen o w.key current)
    (h : Settled i [] o s) :
  (keySpaceProtocol marker).Ensures i
    (fun r s' => match r with
      | .ok outcome =>
          if outcome.succeeded then
            Committed i w current o (revisionText outcome.revision) s'
          else Missed i w.key o outcome.current s'
      | .error e => Plain e ∧ Unsure i w current o s')
    (transactPut w.key w.payload w.lease current) s
  := by
  refine Protocol.ensures_request_bind (P := keySpaceProtocol marker)
    (hprepared.sends _ _) ?_
  intro s₁ r s₂ hwaits hinv hserves
  have hs₁ := h.waits hwaits
  have hsub : o ⊆ s₁.observed i := by
    rw [hs₁.observed]
    exact List.Subset.refl o
  have hordered : Ordered (s₁.observed i) := by
    rw [hs₁.observed]
    exact hs₁.ordered
  cases hserves with
  | delivered hdelivers =>
      cases hdelivers with
      | post happlies =>
          cases happlies with
          | txn =>
              obtain heq | heq | ⟨c, hput, hafter, heq, hc⟩ :=
                execute_put hinv hsub hseen hordered .write
              · rw [← putTxn, heq]
                exact Protocol.ensures_settle ⟨trivial, hs₁.unsure (List.Subset.refl o)⟩
              · rw [← putTxn, heq]
                apply Protocol.ensures_settle
                have hmet : Settled i [] (.row w.key (s₁.rows w.key) :: o)
                    (s₁.observe i (.row w.key (s₁.rows w.key))) := hs₁.observeRow _ _
                cases houtcome : putOutcome
                    ⟨s₁.revision, false, [.range (s₁.range w.key)]⟩ w.key current with
                | none => exact ⟨trivial, hmet.unsure (List.subset_cons_self _ _)⟩
                | some outcome =>
                    obtain ⟨hfailed, hcurrent⟩ := failedTransaction_range houtcome
                    simp only [orProtocolError, hfailed, Bool.false_eq_true, if_false]
                    exact ⟨_, hmet, List.subset_cons_self _ _, hcurrent.mono (by simp)⟩
              · rw [← putTxn, heq]
                apply Protocol.ensures_settle
                have hput' : Settled i [c] o (s₁.change i w.key c.after) :=
                  ⟨by rw [hc, hs₁.changes], hs₁.flights, hs₁.observed, hs₁.ordered⟩
                cases houtcome : putOutcome
                    ⟨s₁.revision + 1, true, [.put (s₁.revision + 1) (s₁.rows w.key)]⟩
                    w.key current with
                | none =>
                    refine ⟨trivial, ?_, ?_, .inr ⟨c, hput'.changes, hput, hput'.flights⟩⟩
                    · exact hsub
                    · exact hordered
                | some outcome =>
                    obtain ⟨hsucceeded, hrevision⟩ := putOutcome_put houtcome
                    simp only [orProtocolError, hsucceeded, if_true]
                    refine ⟨c, s₁.revision, o, hput', List.Subset.refl o, hput, hafter, ?_⟩
                    rw [hrevision]
  | failed hf => exact Protocol.ensures_settle ⟨hf.plain, hs₁.unsure (List.Subset.refl o)⟩
  | lost hf happlies =>
      apply Protocol.ensures_settle
      refine ⟨hf.plain, ?_⟩
      cases happlies with
      | txn =>
          apply unsure_execute hinv hsub hseen hordered hs₁.changes .write rfl
          · exact congrFun (observed_execute _ _) i
          · rw [flightsOf, inFlight_execute]
            exact hs₁.flights
  | late hf =>
      refine Protocol.ensures_settle ⟨hf.plain, hsub, hordered, ?_⟩
      refine .inl ⟨hs₁.changes, .inr ?_⟩
      have hflights := hs₁.flights
      simp only [flightsOf, List.map_eq_nil_iff] at hflights
      simp [flightsOf, hflights, putTxn]

/-- A row with the payload of the put is the row the call has put. -/
theorem Unsure.committed (h : Unsure i w current o s) (hinv : Consistent marker s)
    (hprepared : Prepared marker i w) {kv : KeyValue} {row : EtcdRow}
    (hrow : s.rows w.key = some kv) (hdecode : decodeRow kv = some row)
    (hmatches : matchesWrite (some row) w.payload w.lease = true) :
  Committed i w current o row.record.revision (s.observe i (.row w.key (s.rows w.key)))
  := by
  obtain ⟨-, hrevision, hpayload, -⟩ := decodeRow_eq_some hdecode
  simp only [matchesWrite, Option.any_some, decide_eq_true_eq] at hmatches
  have hmarker : markerOf kv.value = some (marker i).val := by
    rw [← hpayload, hmatches.1, hprepared.marker]
  obtain ⟨c, hc, hauthor, -, hafter⟩ := hinv.written hrow hmarker
  have hmem : c ∈ changesOf s i := mem_changesOf.mpr ⟨hc, hauthor⟩
  obtain ⟨hnone, -⟩ | ⟨c', hone, hput, hflights⟩ := h.outcome
  · rw [hnone] at hmem
    cases hmem
  · rw [hone, List.mem_singleton] at hmem
    subst hmem
    have hsettled : Settled i [c] (s.observed i) s := ⟨hone, hflights, rfl, h.ordered⟩
    obtain ⟨n, hn⟩ := hput.after
    refine ⟨c, n, _, hsettled.observeRow _ _, ?_, hput, hn, ?_⟩
    · exact List.Subset.trans h.observed (List.subset_cons_self _ _)
    · rw [hrevision]
      rw [hn] at hafter
      cases hafter
      rfl

theorem rejectUncertainPut_spec {α : Type} (lease : ℤ) (value : EtcdError) :
  (keySpaceProtocol marker).Ensures i (fun r _ => ∃ e, r = .error e ∧ Plain e)
    (rejectUncertainPut lease value : EtcdM α) s
  := by
  have hrelease : (keySpaceProtocol marker).Ensures i (fun r _ => ∀ e, r = .error e → Plain e)
      (tryCatch (releaseLease lease) (fun cleanup =>
        throw (.uncertain .write (.aggregate [value, cleanup]
          "etcd Store write outcome and lease cleanup were uncertain")))) s := by
    apply Protocol.Ensures.tryCatch (releaseLease_spec kept_true lease trivial)
    · exact fun _ _ _ => nofun
    · rintro e s' -
      apply Protocol.ensures_throw
      rintro _ ⟨⟩
      trivial
  apply Protocol.Ensures.bind hrelease
  · rintro _ s' -
    exact Protocol.ensures_throw ⟨_, rfl, trivial⟩
  · rintro e s' hplain
    exact ⟨e, rfl, hplain e rfl⟩

/-- A put whose response was lost is taken to be committed only if it took effect. -/
theorem putReadback_spec (hprepared : Prepared marker i w) (hseen : Seen o w.key current)
    (value : EtcdError) (h : Unsure i w current o s) :
  (keySpaceProtocol marker).Ensures i
    (fun r s' => match r with
      | .ok attempt =>
          attempt.committed = true ∧ Committed i w current o attempt.revision s'
      | .error e => Plain e)
    (putReadback w.key w.payload w.lease current value) s
  := by
  have hread : (keySpaceProtocol marker).Ensures i
      (fun r s' => match r with
        | .ok row => matchesWrite row w.payload w.lease = true →
            ∃ row', row = some row' ∧ Committed i w current o row'.record.revision s'
        | .error e => Plain e)
      (tryCatch (do return (← rangeExact .writeReadback w.key).row)
        (fun _ => throw (.uncertain .write value))) s := by
    have hrange : (keySpaceProtocol marker).Ensures i
        (fun r s' => ∀ range, r = .ok range →
          matchesWrite range.row w.payload w.lease = true →
          ∃ row', range.row = some row' ∧ Committed i w current o row'.record.revision s')
        (rangeExact .writeReadback w.key) s := by
      apply rangeExact_ensures
      · rintro s₁ range hwaits hinv hrange _ ⟨⟩ hmatches
        have hs₁ := Protocol.Stable.waits _ (stable_unsure hseen) hwaits h
        obtain ⟨-, hnone⟩ | ⟨kv, row, hrow, hdecode, hsome⟩ := exactRangeResponse_range hrange
        · rw [hnone] at hmatches
          cases hmatches
        · rw [hsome] at hmatches
          exact ⟨row, hsome, hs₁.committed hinv hprepared hrow hdecode hmatches⟩
      · rintro _ _ _ _ _ _ _ ⟨⟩
    have hrow : (keySpaceProtocol marker).Ensures i
        (fun r s' => ∀ row, r = .ok row → matchesWrite row w.payload w.lease = true →
          ∃ row', row = some row' ∧ Committed i w current o row'.record.revision s')
        (do return (← rangeExact .writeReadback w.key).row) s := by
      apply Protocol.Ensures.bind hrange
      · rintro range s' hrange'
        apply Protocol.ensures_pure
        rintro _ ⟨⟩
        exact hrange' range rfl
      · exact fun _ _ _ _ => nofun
    apply Protocol.Ensures.tryCatch hrow
    · exact fun row s' hrow' => hrow' row rfl
    · exact fun _ _ _ => Protocol.ensures_throw trivial
  apply Protocol.Ensures.bind hread
  · rintro row s' hrow
    by_cases hmatches : matchesWrite row w.payload w.lease = true
    · rw [if_pos hmatches]
      obtain ⟨row', rfl, hcommitted⟩ := hrow hmatches
      exact Protocol.ensures_pure ⟨rfl, hcommitted⟩
    · rw [if_neg hmatches]
      apply (rejectUncertainPut_spec w.lease value).mono
      rintro _ s' ⟨e, rfl, hplain⟩
      exact hplain
  · exact fun e s' hplain => hplain

/-- An attempt to put a row over an expected one that returns knows whether the put took
effect. -/
theorem putAttempt_spec (hprepared : Prepared marker i w) (hseen : Seen o w.key current)
    (h : Settled i [] o s) :
  (keySpaceProtocol marker).Ensures i
    (fun r s' => match r with
      | .ok attempt =>
          if attempt.committed then Committed i w current o attempt.revision s'
          else Missed i w.key o attempt.current s'
      | .error e => Plain e)
    (putAttempt w.key w.payload w.lease current) s
  := by
  rw [putAttempt]
  have hput : (keySpaceProtocol marker).Ensures i
      (fun (r : Except EtcdError Attempt) s' => match r with
        | .ok attempt =>
            if attempt.committed then Committed i w current o attempt.revision s'
            else Missed i w.key o attempt.current s'
        | .error e => Plain e ∧ Unsure i w current o s')
      (do
        let result ← transactPut w.key w.payload w.lease current
        return ⟨result.succeeded, revisionText result.revision,
          if result.succeeded then current else result.current⟩) s := by
    apply Protocol.Ensures.bind (transactPut_spec hprepared hseen h)
    · rintro outcome s' houtcome
      apply Protocol.ensures_pure
      cases hsucceeded : outcome.succeeded with
      | true | false => simpa [hsucceeded] using houtcome
    · exact fun _ _ herror => herror
  apply Protocol.Ensures.tryCatch hput
  · exact fun _ _ hattempt => hattempt
  · rintro e s' ⟨hplain, hunsure⟩
    split
    · exact Protocol.ensures_throw trivial
    · split
      · exact Protocol.ensures_throw hplain
      · apply (putReadback_spec hprepared hseen e hunsure).mono
        rintro (e' | attempt) s'' hattempt
        · exact hattempt
        · obtain ⟨hcommitted, hput'⟩ := hattempt
          simp only [hcommitted, if_true]
          exact hput'

end Store.Etcd
