import GoLike.Store.Etcd.Views

/-!
# What the requests of a call establish

A call is settled when none of its transactions may take effect later: other calls and the
key space then leave its view as it is. Each request of the etcd Store apart from its
transactions leaves a settled call settled and makes it observe a row or the time.
-/

open Interleave

namespace Store.Etcd

variable {ι : Type} [DecidableEq ι] {marker : ι ↪ Key} {i : ι}

/-! ### Settled calls -/

/-- No time that was observed is after the one that was observed last. -/
def Ordered (o : List Observation) : Prop :=
  ∀ {t}, .time t ∈ o → ∃ t', clockOf o = some t' ∧ t ≤ t'

theorem ordered_row {o : List Observation} (h : Ordered o) (key : Key) (kv : Option KeyValue) :
  Ordered (.row key kv :: o)
  := by
  intro t ht
  obtain heq | ht := List.mem_cons.mp ht
  · cases heq
  · exact h ht

theorem ordered_time {o : List Observation} (h : Ordered o) {t : TimeValue}
    (hlast : ∀ t', clockOf o = some t' → t' ≤ t) :
  Ordered (.time t :: o)
  := by
  intro t' ht'
  refine ⟨t, rfl, ?_⟩
  obtain heq | ht' := List.mem_cons.mp ht'
  · cases heq
    exact le_rfl
  · obtain ⟨t'', hclock, hle⟩ := h ht'
    exact hle.trans (hlast t'' hclock)

/-- The call has made the changes and the observations, and no transaction of it may take
effect later. -/
structure Settled (i : ι) (changes : List (Change ι)) (o : List Observation)
    (s : KeySpace ι) : Prop where
  changes : changesOf s i = changes
  flights : flightsOf s i = []
  observed : s.observed i = o
  ordered : Ordered o

variable {changes : List (Change ι)} {o : List Observation} {s s' : KeySpace ι}

theorem Settled.sameView (h : Settled i changes o s) (hsame : SameView i s s') :
  Settled i changes o s'
  := ⟨hsame.changes.trans h.changes, hsame.flights.trans h.flights,
    hsame.observed.trans h.observed, h.ordered⟩

variable (marker i changes o) in
theorem stable_settled :
  (keySpaceProtocol marker).Stable i (Settled i changes o)
  := by
  intro s s' hinterferes h
  exact h.sameView (sameView_interferes hinterferes h.flights)

theorem Settled.waits (h : Settled i changes o s) (hwaits : (keySpaceProtocol marker).Waits i s s') :
  Settled i changes o s'
  := Protocol.Stable.waits _ (stable_settled marker i changes o) hwaits h

theorem Settled.observe {observation : Observation} (h : Settled i changes o s)
    (hordered : Ordered (observation :: o)) :
  Settled i changes (observation :: o) (s.observe i observation)
  := by
  refine ⟨h.changes, h.flights, ?_, hordered⟩
  simp [KeySpace.observe, h.observed]

theorem Settled.observeRow (h : Settled i changes o s) (key : Key) (kv : Option KeyValue) :
  Settled i changes (.row key kv :: o) (s.observe i (.row key kv))
  := h.observe (ordered_row h.ordered key kv)

/-! ### Errors -/

/-- The error is a conflict, or consists of errors one of which is a conflict. -/
def reportsConflict : EtcdError → Bool
  | .store (.conflict _) => true
  | .aggregate errors _ => errors.any fun
      | .store (.conflict _) => true
      | _ => false
  | _ => false

/-- The error neither is a conflict nor consists of several errors. -/
def Plain : EtcdError → Prop
  | .store (.conflict _) => False
  | .aggregate _ _ => False
  | _ => True

theorem Plain.not_conflict {e : EtcdError} (h : Plain e) :
  reportsConflict e = false
  := by
  cases e with
  | store e =>
      cases e with
      | conflict c => exact h.elim
      | _ => rfl
  | aggregate errors message => exact h.elim
  | _ => rfl

theorem GatewayFailure.plain {e : EtcdError} (h : GatewayFailure e) :
  Plain e
  := by
  cases h with
  | _ => trivial

/-! ### Requests -/

/-- A request to the gateway is served after some interference, and the program continues
with its response. -/
theorem ensures_post_bind {α : Type} {p : Post} {f : Response p → EtcdM α}
    {Q : Except EtcdError α → KeySpace ι → Prop} (hsends : Sends marker i (.post p))
    (hok : ∀ {s₁ response s₂}, (keySpaceProtocol marker).Waits i s s₁ → Consistent marker s₁ →
      Serves marker i (.post p) s₁ (.ok response) s₂ →
      (keySpaceProtocol marker).Ensures i Q (f response) s₂)
    (herror : ∀ {s₁ e s₂}, (keySpaceProtocol marker).Waits i s s₁ → Consistent marker s₁ →
      Serves marker i (.post p) s₁ (.error e) s₂ → Q (.error e) s₂) :
  (keySpaceProtocol marker).Ensures i Q (post p >>= f) s
  := by
  refine Protocol.ensures_request_bind (P := keySpaceProtocol marker) hsends ?_
  intro s₁ r s₂ hwaits hinv hserves
  cases r with
  | ok response => exact hok hwaits hinv hserves
  | error e => exact herror hwaits hinv hserves

/-- The request contains no transaction. -/
def Quiet : Post → Prop
  | .txn _ _ => False
  | _ => True

omit [DecidableEq ι] in
theorem sends_quiet {p : Post} (h : Quiet p) :
  Sends marker i (.post p)
  := by
  intro operation x heq
  cases heq
  exact h.elim

/-- What the failure of a request without a transaction, or its response, leads to. -/
theorem serves_quiet {p : Post} (h : Quiet p) {r : Except EtcdError (Response p)}
    (hserves : Serves marker i (.post p) s r s') :
  (∃ f, r = .error f ∧ Plain f ∧ SameView i s s') ∨
    ∃ s'', Applies i p s r s'' ∧ SameView i s s'' ∧ s' = s''.note i p r
  := by
  have hsame : ∀ {r s'}, Applies i p s r s' → SameView i s s' := by
    intro r s' happlies
    cases happlies with
    | range | leaseMissing => exact .refl i s
    | txn => exact h.elim
    | leaseGrant hid hfresh => exact ⟨rfl, rfl, rfl⟩
    | leaseRevoke hid removed => exact sameView_withoutLease i s _ removed
  cases hserves with
  | delivered hdelivers =>
      cases hdelivers with
      | post happlies => exact .inr ⟨_, happlies, hsame happlies, rfl⟩
  | failed hf => exact .inl ⟨_, rfl, hf.plain, .refl i s⟩
  | lost hf happlies => exact .inl ⟨_, rfl, hf.plain, hsame happlies⟩
  | late hf => exact h.elim

/-! ### Reading -/

/-- The row was decoded from a row of the key that the call observed. -/
def Seen (o : List Observation) (key : Key) (row : Option EtcdRow) : Prop :=
  ∀ r, row = some r → ∃ kv, .row key (some kv) ∈ o ∧ decodeRow kv = some r

theorem Seen.mono {o' : List Observation} {key : Key} {row : Option EtcdRow}
    (h : Seen o key row) (hsub : o ⊆ o') :
  Seen o' key row
  := by
  intro r hr
  obtain ⟨kv, hkv, hdecode⟩ := h r hr
  exact ⟨kv, hsub hkv, hdecode⟩

omit [DecidableEq ι] in
/-- A response that reports the row of a key. -/
theorem exactRangeResponse_range {key : Key} {range : ExactRange}
    (h : exactRangeResponse (s.range key) key = some range) :
  (s.rows key = none ∧ range.row = none) ∨
    ∃ kv row, s.rows key = some kv ∧ decodeRow kv = some row ∧ range.row = some row
  := by
  rw [exactRangeResponse, KeySpace.range] at h
  cases hrow : s.rows key with
  | none =>
      rw [hrow] at h
      cases h
      exact .inl ⟨rfl, rfl⟩
  | some kv =>
      rw [hrow] at h
      simp only [Option.toList_some, Option.bind_eq_bind, Option.bind_eq_some_iff,
        Option.some.injEq] at h
      obtain ⟨row, hdecode, _, -, rfl⟩ := h
      exact .inr ⟨kv, row, rfl, hdecode, rfl⟩

omit [DecidableEq ι] in
theorem seen_range {key : Key} {range : ExactRange}
    (h : exactRangeResponse (s.range key) key = some range) :
  Seen [.row key (s.rows key)] key range.row
  := by
  intro r hr
  obtain ⟨-, hnone⟩ | ⟨kv, row, hrow, hdecode, hsome⟩ := exactRangeResponse_range h
  · rw [hnone] at hr
    cases hr
  · rw [hsome] at hr
    cases hr
    exact ⟨kv, by rw [hrow]; exact List.mem_cons_self, hdecode⟩

/-- A read of the row of a key yields the row it has at some moment. -/
theorem rangeExact_ensures {operation : Operation} {key : Key}
    {Q : Except EtcdError ExactRange → KeySpace ι → Prop}
    (hok : ∀ {s₁ range}, (keySpaceProtocol marker).Waits i s s₁ → Consistent marker s₁ →
      exactRangeResponse (s₁.range key) key = some range →
      Q (.ok range) (s₁.observe i (.row key (s₁.rows key))))
    (herror : ∀ {s₁ s₂ e}, (keySpaceProtocol marker).Waits i s s₁ → Plain e →
      SameView i s₁ s₂ ∨ s₂ = s₁.observe i (.row key (s₁.rows key)) → Q (.error e) s₂) :
  (keySpaceProtocol marker).Ensures i Q (rangeExact operation key) s
  := by
  have hquiet : Quiet (.range operation key) := trivial
  apply ensures_post_bind (sends_quiet hquiet)
  · intro s₁ response s₂ hwaits hinv hserves
    obtain ⟨_, heq, -⟩ | ⟨s'', happlies, -, rfl⟩ := serves_quiet hquiet hserves
    · cases heq
    · cases happlies with
      | range =>
          simp only [KeySpace.note]
          cases hrange : exactRangeResponse (s₁.range key) key with
          | none => exact Protocol.ensures_settle (herror hwaits trivial (.inr rfl))
          | some range => exact Protocol.ensures_settle (hok hwaits hinv hrange)
  · intro s₁ e s₂ hwaits hinv hserves
    obtain ⟨_, heq, hplain, hsame⟩ | ⟨s'', happlies, -, -⟩ := serves_quiet hquiet hserves
    · cases heq
      exact herror hwaits hplain (.inl hsame)
    · cases happlies

/-- A settled call that reads the row of a key observes it. -/
theorem rangeExact_spec (operation : Operation) (key : Key) (h : Settled i changes o s) :
  (keySpaceProtocol marker).Ensures i
    (fun r s' => ∃ o', o ⊆ o' ∧ Settled i changes o' s' ∧ match r with
      | .ok range => Seen o' key range.row
      | .error e => Plain e)
    (rangeExact operation key) s
  := by
  apply rangeExact_ensures
  · intro s₁ range hwaits _ hrange
    refine ⟨_, List.subset_cons_self _ _, (h.waits hwaits).observeRow _ _, ?_⟩
    exact (seen_range hrange).mono (by simp)
  · rintro s₁ s₂ e hwaits hplain (hsame | rfl)
    · exact ⟨o, List.Subset.refl o, (h.waits hwaits).sameView hsame, hplain⟩
    · exact ⟨_, List.subset_cons_self _ _, (h.waits hwaits).observeRow _ _, hplain⟩

/-! ### The clock -/

/-- The row had not expired at a time that the call observed. -/
def VisibleIn (o : List Observation) (row : EtcdRow) : Prop :=
  ∀ e, row.record.expiresAt = some e → ∃ t : TimeValue, .time t ∈ o ∧ t.val < e.val

/-- The row had expired at a time that the call observed. -/
def ExpiredIn (o : List Observation) (row : EtcdRow) : Prop :=
  ∃ e, row.record.expiresAt = some e ∧ ∃ t : TimeValue, .time t ∈ o ∧ e.val ≤ t.val

/-- Every request to the clock is served. -/
theorem dateNow_spec (h : Settled i changes o s) :
  (keySpaceProtocol marker).Ensures i
    (fun r s' => ∃ t, r = .ok t ∧ Settled i changes (.time t :: o) s') dateNow s
  := by
  apply Protocol.ensures_request (P := keySpaceProtocol marker)
  · rintro _ _ ⟨⟩
  · intro s₁ t s₂ hwaits _ hserves
    have hs₁ := h.waits hwaits
    cases hserves with
    | delivered hdelivers =>
        cases hdelivers with
        | now ht =>
            rw [hs₁.observed] at ht
            exact ⟨t, rfl, hs₁.observe (ordered_time h.ordered ht)⟩

/-- Whether a row has expired is decided at a time that the call observes. -/
theorem expired_spec (row : EtcdRow) (h : Settled i changes o s) :
  (keySpaceProtocol marker).Ensures i
    (fun r s' => ∃ b o', r = .ok b ∧ o ⊆ o' ∧ Settled i changes o' s' ∧
      if b then ExpiredIn o' row else VisibleIn o' row)
    (expired row) s
  := by
  rw [expired]
  cases hexpires : row.record.expiresAt with
  | none =>
      refine Protocol.ensures_pure ⟨false, o, rfl, List.Subset.refl o, h, ?_⟩
      intro e he
      rw [hexpires] at he
      cases he
  | some e =>
      apply Protocol.Ensures.bind (dateNow_spec h)
      · rintro t s' ⟨_, heq, hs'⟩
        cases heq
        refine Protocol.ensures_pure ⟨_, _, rfl, List.subset_cons_self _ _, hs', ?_⟩
        simp only [Store.expired, hexpires]
        by_cases hle : e ≤ t.timestamp
        · rw [if_pos (decide_eq_true hle)]
          exact ⟨e, hexpires, t, List.mem_cons_self, hle⟩
        · rw [if_neg (fun hdecide => hle (of_decide_eq_true hdecide))]
          intro e' he'
          rw [hexpires] at he'
          cases he'
          exact ⟨t, List.mem_cons_self, not_le.mp hle⟩
      · rintro _ s' ⟨_, heq, -⟩
        cases heq

/-- The revision of a row that is visible, or none if there is no such row. -/
theorem visibleRevision_spec (row : Option EtcdRow) (h : Settled i changes o s) :
  (keySpaceProtocol marker).Ensures i
    (fun r s' => ∃ v o', r = .ok v ∧ o ⊆ o' ∧ Settled i changes o' s' ∧ match v with
      | none => row = none ∨ ∃ r, row = some r ∧ ExpiredIn o' r
      | some revision => ∃ r, row = some r ∧ r.record.revision = revision ∧ VisibleIn o' r)
    (visibleRevision row) s
  := by
  cases row with
  | none => exact Protocol.ensures_pure ⟨none, o, rfl, List.Subset.refl o, h, .inl rfl⟩
  | some row =>
      apply Protocol.Ensures.bind (expired_spec row h)
      · rintro b s' ⟨_, o', heq, hsub, hs', hrow⟩
        cases heq
        cases b with
        | true => exact Protocol.ensures_pure ⟨none, o', rfl, hsub, hs', .inr ⟨row, rfl, hrow⟩⟩
        | false =>
            exact Protocol.ensures_pure ⟨some _, o', rfl, hsub, hs', row, rfl, rfl, hrow⟩
      · rintro _ s' ⟨_, _, heq, -⟩
        cases heq

end Store.Etcd
