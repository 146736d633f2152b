import GoLike.Store.Etcd.KeySpace

/-!
# The invariant of the etcd key space

The modification revision of a row is not used again: a row that a call has observed is,
while its key has this revision, the row of the key, and a row that a transaction replaced
or deleted never returns. A row with the marker of a call was put by this call.
-/

open Interleave

namespace Store.Etcd

variable {ι : Type}

/-- The row decodes. -/
def Decodes (kv : KeyValue) : Prop := ∃ row, decodeRow kv = some row

/-- A row put by a call has the marker of the call, and decodes. -/
structure PutBy (marker : ι ↪ Key) (i : ι) (key : Key) (kv : KeyValue) : Prop where
  key : kv.key = key.val
  marker : markerOf kv.value = some (marker i).val
  decodes : Decodes kv

/-- A transaction puts only payloads with the marker of its call, which decode. -/
def Own (marker : ι ↪ Key) (i : ι) (x : Txn) : Prop :=
  ∀ key value lease, x.success = .put key value lease →
    ∀ revision, PutBy marker i key ⟨key.val, revision + 1, lease, value⟩

/-- The row is not at a later revision than the key space, and as long as the key has its
revision it is the row of the key. If it decodes, the row of the key does. -/
structure Identified (s : KeySpace ι) (key : Key) (kv : KeyValue) : Prop where
  issued : kv.modRevision ≤ s.revision
  same : ∀ kv', s.rows key = some kv' → kv'.modRevision = kv.modRevision → kv' = kv
  decodes : ∀ kv', s.rows key = some kv' → Decodes kv → Decodes kv'

/-- The row is not at a later revision than the key space, and its key has another one. -/
structure Gone (s : KeySpace ι) (key : Key) (kv : KeyValue) : Prop where
  issued : kv.modRevision ≤ s.revision
  gone : ∀ kv', s.rows key = some kv' → kv'.modRevision ≠ kv.modRevision

/-- The row that a call put. -/
def Put (s : KeySpace ι) (i : ι) (key : Key) (kv : KeyValue) : Prop :=
  ∃ c ∈ s.changes, c.author = i ∧ c.key = key ∧ c.after = some kv

/-- The changes replace or delete different rows. -/
def Different (c c' : Change ι) : Prop :=
  c.key = c'.key → ∀ kv kv', c.before = some kv → c'.before = some kv' →
    kv.modRevision ≠ kv'.modRevision

/-- The invariant of the key space. -/
structure Consistent (marker : ι ↪ Key) (s : KeySpace ι) : Prop where
  issued : ∀ {key kv}, s.rows key = some kv → kv.modRevision ≤ s.revision
  keyed : ∀ {key kv}, s.rows key = some kv → kv.key = key.val
  written : ∀ {i key kv}, s.rows key = some kv → markerOf kv.value = some (marker i).val →
    Put s i key kv
  observed : ∀ {i key kv}, .row key (some kv) ∈ s.observed i → Identified s key kv
  replaced : ∀ {c kv}, c ∈ s.changes → c.before = some kv → Gone s c.key kv
  different : s.changes.Pairwise Different
  own : ∀ {i x}, (i, x) ∈ s.inFlight → Own marker i x

/-! ### Later states -/

/-- The rows of a state are those of an earlier one, or are at a later revision and decode. -/
structure Later (s s' : KeySpace ι) : Prop where
  revision : s.revision ≤ s'.revision
  rows : ∀ {key kv}, s'.rows key = some kv →
    s.rows key = some kv ∨ (s.revision < kv.modRevision ∧ Decodes kv)

theorem Identified.later {s s' : KeySpace ι} {key : Key} {kv : KeyValue}
    (h : Identified s key kv) (hlater : Later s s') :
  Identified s' key kv
  := by
  refine ⟨h.issued.trans hlater.revision, ?_, ?_⟩
  · intro kv' hrow heq
    obtain hold | ⟨hnew, -⟩ := hlater.rows hrow
    · exact h.same kv' hold heq
    · have hissued := h.issued
      omega
  · intro kv' hrow hdecodes
    obtain hold | ⟨-, hnew⟩ := hlater.rows hrow
    · exact h.decodes kv' hold hdecodes
    · exact hnew

theorem Gone.later {s s' : KeySpace ι} {key : Key} {kv : KeyValue} (h : Gone s key kv)
    (hlater : Later s s') :
  Gone s' key kv
  := by
  refine ⟨h.issued.trans hlater.revision, ?_⟩
  intro kv' hrow
  obtain hold | ⟨hnew, -⟩ := hlater.rows hrow
  · exact h.gone kv' hold
  · have hissued := h.issued
    omega

variable {marker : ι ↪ Key} {s s' : KeySpace ι}

/-- The invariant is kept when only rows disappear. -/
theorem Consistent.shrink (h : Consistent marker s) (hrevision : s.revision ≤ s'.revision)
    (hrows : ∀ {key kv}, s'.rows key = some kv → s.rows key = some kv)
    (hchanges : s'.changes = s.changes)
    (hobserved : ∀ {i key kv}, .row key (some kv) ∈ s'.observed i → Identified s' key kv)
    (hown : ∀ {i x}, (i, x) ∈ s'.inFlight → Own marker i x) :
  Consistent marker s'
  := by
  have hlater : Later s s' := ⟨hrevision, fun hrow => .inl (hrows hrow)⟩
  constructor
  case issued =>
    intro key kv hrow
    exact (h.issued (hrows hrow)).trans hrevision
  case keyed =>
    intro key kv hrow
    exact h.keyed (hrows hrow)
  case written =>
    intro i key kv hrow hmarker
    obtain ⟨c, hc, hput⟩ := h.written (hrows hrow) hmarker
    rw [← hchanges] at hc
    exact ⟨c, hc, hput⟩
  case observed => exact hobserved
  case replaced =>
    intro c kv hc hbefore
    rw [hchanges] at hc
    exact (h.replaced hc hbefore).later hlater
  case different =>
    rw [hchanges]
    exact h.different
  case own => exact hown

/-- The invariant is about the rows, the changes, the observations and the transactions in
flight. -/
theorem Consistent.sameRows (h : Consistent marker s) {leases : List ℤ}
    {inFlight : List (ι × Txn)} {observed : ι → List Observation}
    (hobserved : ∀ {i key kv}, .row key (some kv) ∈ observed i → Identified s key kv)
    (hown : ∀ {i x}, (i, x) ∈ inFlight → Own marker i x) :
  Consistent marker
    { s with leases := leases, inFlight := inFlight, observed := observed }
  := by
  have hsame : Later s
      { s with leases := leases, inFlight := inFlight, observed := observed } :=
    ⟨le_rfl, fun hrow => .inl hrow⟩
  refine Consistent.shrink h le_rfl (fun hrow => hrow) rfl ?_ hown
  intro i key kv hseen
  exact (hobserved hseen).later hsame

variable [DecidableEq ι]

theorem later_change {i : ι} {key : Key} {after : Option KeyValue}
    (hafter : ∀ kv, after = some kv → kv.modRevision = s.revision + 1 ∧ Decodes kv) :
  Later s (s.change i key after)
  := by
  refine ⟨Nat.le_succ _, ?_⟩
  intro key' kv hrow
  by_cases hkey : key' = key
  · subst hkey
    simp only [KeySpace.change, Function.update_self] at hrow
    obtain ⟨hrevision, hdecodes⟩ := hafter kv hrow
    exact .inr ⟨by omega, hdecodes⟩
  · simp only [KeySpace.change, Function.update_of_ne hkey] at hrow
    exact .inl hrow

/-- A transaction that changes the row of a key keeps the invariant. -/
theorem Consistent.change (h : Consistent marker s) {i : ι} {key : Key}
    {after : Option KeyValue}
    (hafter : ∀ kv, after = some kv → kv.modRevision = s.revision + 1 ∧
      PutBy marker i key kv) :
  Consistent marker (s.change i key after)
  := by
  have hlater : Later s (s.change i key after) :=
    later_change fun kv hkv => ⟨(hafter kv hkv).1, (hafter kv hkv).2.decodes⟩
  constructor
  case issued =>
    intro key' kv hrow
    by_cases hkey : key' = key
    · subst hkey
      simp only [KeySpace.change, Function.update_self] at hrow
      exact (hafter kv hrow).1.le
    · simp only [KeySpace.change, Function.update_of_ne hkey] at hrow
      exact (h.issued hrow).trans (Nat.le_succ _)
  case keyed =>
    intro key' kv hrow
    by_cases hkey : key' = key
    · subst hkey
      simp only [KeySpace.change, Function.update_self] at hrow
      exact (hafter kv hrow).2.key
    · simp only [KeySpace.change, Function.update_of_ne hkey] at hrow
      exact h.keyed hrow
  case written =>
    intro j key' kv hrow hmarker
    by_cases hkey : key' = key
    · subst hkey
      simp only [KeySpace.change, Function.update_self] at hrow
      have hj : j = i := by
        apply marker.injective
        apply Subtype.ext
        exact Option.some.inj (hmarker.symm.trans (hafter kv hrow).2.marker)
      exact ⟨_, List.mem_cons_self, hj.symm, rfl, hrow⟩
    · simp only [KeySpace.change, Function.update_of_ne hkey] at hrow
      obtain ⟨c, hc, hput⟩ := h.written hrow hmarker
      exact ⟨c, List.mem_cons_of_mem _ hc, hput⟩
  case observed =>
    intro j key' kv hseen
    exact (h.observed hseen).later hlater
  case replaced =>
    intro c kv hc hbefore
    obtain rfl | hc := List.mem_cons.mp hc
    · refine ⟨(h.issued hbefore).trans (Nat.le_succ _), ?_⟩
      intro kv' hrow heq
      simp only [KeySpace.change, Function.update_self] at hrow
      have hnew := (hafter kv' hrow).1
      have hold := h.issued hbefore
      omega
    · exact (h.replaced hc hbefore).later hlater
  case different =>
    apply List.Pairwise.cons _ h.different
    intro c hc hkey kv kv' hbefore hbefore'
    have hrow : s.rows c.key = some kv := by
      rw [← hkey]
      exact hbefore
    exact (h.replaced hc hbefore').gone kv hrow
  case own => exact h.own

theorem Consistent.mutate (h : Consistent marker s) {i : ι} {m : Mutation}
    (hown : ∀ key value lease, m = .put key value lease →
      ∀ revision, PutBy marker i key ⟨key.val, revision + 1, lease, value⟩) :
  Consistent marker (s.mutate i m).2
  := by
  cases m with
  | put key value lease =>
      apply h.change
      rintro kv ⟨⟩
      exact ⟨rfl, hown key value lease rfl _⟩
  | deleteRange key =>
      rw [KeySpace.mutate]
      split
      · exact h
      · apply h.change
        rintro kv ⟨⟩

theorem Consistent.execute (h : Consistent marker s) {i : ι} {x : Txn} (hown : Own marker i x)
    (operation : Operation) :
  Consistent marker (s.execute i operation x).2
  := by
  rw [KeySpace.execute]
  split
  · split
    · exact h
    · exact h.mutate hown
  · exact h

/-! ### The steps of the service -/

omit [DecidableEq ι] in
theorem Consistent.withoutLease (h : Consistent marker s) (lease : ℤ) (removed : Bool) :
  Consistent marker (s.withoutLease lease removed)
  := by
  have hrevision : s.revision ≤ (s.withoutLease lease removed).revision := by
    cases removed with
    | false => exact le_rfl
    | true => exact Nat.le_succ _
  have hrows : ∀ {key kv}, (s.withoutLease lease removed).rows key = some kv →
      s.rows key = some kv := by
    intro key kv hrow
    simp only [KeySpace.withoutLease, Option.filter_eq_some_iff] at hrow
    exact hrow.1
  apply Consistent.shrink h hrevision hrows rfl _ h.own
  intro i key kv hseen
  exact (h.observed hseen).later ⟨hrevision, fun hrow => .inl (hrows hrow)⟩

theorem Consistent.observe (h : Consistent marker s) (i : ι) {o : Observation}
    (ho : ∀ {key kv}, o = .row key (some kv) → Identified s key kv) :
  Consistent marker (s.observe i o)
  := by
  apply h.sameRows _ h.own
  intro j key kv hseen
  by_cases hj : j = i
  · subst hj
    rw [Function.update_self] at hseen
    obtain heq | hseen := List.mem_cons.mp hseen
    · exact ho heq.symm
    · exact h.observed hseen
  · rw [Function.update_of_ne hj] at hseen
    exact h.observed hseen

/-- The row of a key is identified when it is observed. -/
theorem Consistent.observeRow (h : Consistent marker s) (i : ι) (key : Key) :
  Consistent marker (s.observe i (.row key (s.rows key)))
  := by
  apply h.observe
  intro key' kv heq
  simp only [Observation.row.injEq] at heq
  obtain ⟨rfl, hrow⟩ := heq
  have hsame : ∀ kv', s.rows key = some kv' → kv' = kv := by
    intro kv' hrow'
    exact Option.some.inj (hrow'.symm.trans hrow)
  refine ⟨h.issued hrow, fun kv' hrow' _ => hsame kv' hrow', ?_⟩
  intro kv' hrow' hdecodes
  rw [hsame kv' hrow']
  exact hdecodes

theorem Consistent.note (h : Consistent marker s) (i : ι) (p : Post)
    (r : Except EtcdError (Response p)) :
  Consistent marker (s.note i p r)
  := by
  cases p with
  | range operation key => exact h.observeRow i key
  | txn operation x =>
      cases r with
      | error e => exact h
      | ok response =>
          simp only [KeySpace.note]
          split
          · exact h
          · exact h.observeRow i x.failure
  | leaseGrant | leaseRevoke => exact h

/-- The transactions that a request may contain. -/
def Sends (marker : ι ↪ Key) (i : ι) (q : Request) : Prop :=
  ∀ operation x, q = .post (.txn operation x) → Own marker i x

theorem Consistent.applies (h : Consistent marker s) {i : ι} {p : Post}
    (hsends : Sends marker i (.post p)) {r : Except EtcdError (Response p)}
    (happlies : Applies i p s r s') :
  Consistent marker s'
  := by
  cases happlies with
  | range | leaseMissing => exact h
  | txn => exact h.execute (hsends _ _ rfl) _
  | leaseGrant hid hfresh =>
      exact h.sameRows h.observed h.own
  | leaseRevoke hid removed => exact h.withoutLease _ removed

theorem Consistent.delivers (h : Consistent marker s) {i : ι} {q : Request}
    (hsends : Sends marker i q) {r : Reply q} (hdelivers : Delivers marker i q s r s') :
  Consistent marker s'
  := by
  cases hdelivers with
  | now ht =>
      apply h.observe
      intro key kv heq
      cases heq
  | randomUUID => exact h
  | post happlies => exact (h.applies hsends happlies).note i _ _

omit [DecidableEq ι] in
theorem Consistent.flight (h : Consistent marker s) {flight : List (ι × Txn)}
    (hown : ∀ {i x}, (i, x) ∈ flight → Own marker i x) :
  Consistent marker { s with inFlight := flight }
  := h.sameRows h.observed hown

theorem Consistent.serves (h : Consistent marker s) {i : ι} {q : Request}
    (hsends : Sends marker i q) {r : Reply q} (hserves : Serves marker i q s r s') :
  Consistent marker s'
  := by
  cases hserves with
  | delivered hdelivers => exact h.delivers hsends hdelivers
  | failed hf => exact h
  | lost hf happlies => exact h.applies hsends happlies
  | late hf =>
      apply h.flight
      intro j x hmem
      obtain heq | hmem := List.mem_cons.mp hmem
      · cases heq
        exact hsends _ _ rfl
      · exact h.own hmem

theorem Consistent.moves (h : Consistent marker s) (hmoves : Moves s s') :
  Consistent marker s'
  := by
  cases hmoves with
  | @late i x l₁ l₂ operation hflight =>
      have hown : ∀ {j y}, (j, y) ∈ l₁ ++ (i, x) :: l₂ → Own marker j y := by
        intro j y hmem
        rw [← hflight] at hmem
        exact h.own hmem
      apply (h.execute (hown (by simp)) operation).flight
      intro j y hmem
      apply hown
      simp only [List.mem_append, List.mem_cons] at hmem ⊢
      tauto
  | leaseEnds lease removed => exact h.withoutLease lease removed

/-- The key space with the requests that calls with their own markers may send. -/
def keySpaceProtocol (marker : ι ↪ Key) : Protocol (keySpace marker) where
  sends := Sends marker
  invariant := Consistent marker
  served h hsends hserves := Consistent.serves h hsends hserves
  moved h hmoves := Consistent.moves h hmoves

/-! ### The start -/

/-- A key space that no call has used, with rows that no call has put. -/
structure Unused (marker : ι ↪ Key) (s : KeySpace ι) : Prop where
  issued : ∀ {key kv}, s.rows key = some kv → kv.modRevision ≤ s.revision
  keyed : ∀ {key kv}, s.rows key = some kv → kv.key = key.val
  foreign : ∀ {key kv} (i : ι), s.rows key = some kv → markerOf kv.value ≠ some (marker i).val
  inFlight : s.inFlight = []
  changes : s.changes = []
  observed : ∀ i, s.observed i = []

omit [DecidableEq ι] in
theorem Unused.consistent (h : Unused marker s) :
  Consistent marker s
  := by
  constructor
  case issued => exact h.issued
  case keyed => exact h.keyed
  case written =>
    intro i key kv hrow hmarker
    exact absurd hmarker (h.foreign i hrow)
  case observed =>
    intro i key kv hseen
    rw [h.observed i] at hseen
    cases hseen
  case replaced =>
    intro c kv hc
    rw [h.changes] at hc
    cases hc
  case different =>
    rw [h.changes]
    exact .nil
  case own =>
    intro i x hmem
    rw [h.inFlight] at hmem
    cases hmem

end Store.Etcd
