import GoLike.Store.Etcd.Consistency

/-!
# What concerns a single call

The changes that a call has made, its transactions that may take effect later, and its
observations are affected by other calls in no way, and by the key space only when such a
transaction takes effect.
-/

open Interleave

namespace Store.Etcd

variable {ι : Type} [DecidableEq ι]

/-- The changes that a call has made. -/
def changesOf (s : KeySpace ι) (i : ι) : List (Change ι) :=
  s.changes.filter (fun c => c.author = i)

/-- The transactions of a call that may take effect later. -/
def flightsOf (s : KeySpace ι) (i : ι) : List Txn :=
  (s.inFlight.filter (fun flight => flight.1 = i)).map Prod.snd

theorem mem_flightsOf {s : KeySpace ι} {i : ι} {x : Txn} :
  x ∈ flightsOf s i ↔ (i, x) ∈ s.inFlight
  := by
  simp [flightsOf]

theorem mem_changesOf {s : KeySpace ι} {i : ι} {c : Change ι} :
  c ∈ changesOf s i ↔ c ∈ s.changes ∧ c.author = i
  := by
  simp [changesOf]

variable {s s' : KeySpace ι} {i j : ι}

/-! ### Transactions -/

@[simp]
theorem changesOf_change (key : Key) (after : Option KeyValue) :
  changesOf (s.change i key after) i =
    ⟨i, key, s.rows key, after, clockOf (s.observed i)⟩ :: changesOf s i
  := by
  simp [changesOf, KeySpace.change]

theorem changesOf_change_other (hother : j ≠ i) (key : Key) (after : Option KeyValue) :
  changesOf (s.change j key after) i = changesOf s i
  := by
  simp [changesOf, KeySpace.change, hother]

theorem execute_cases (s : KeySpace ι) (i : ι) (operation : Operation) (x : Txn) :
  (s.execute i operation x).2 = s ∨
    (s.holds x.compare = true ∧ s.missesLease x.success = false ∧
      (s.execute i operation x).1 =
        .ok ⟨(s.mutate i x.success).2.revision, true, [(s.mutate i x.success).1]⟩ ∧
      (s.execute i operation x).2 = (s.mutate i x.success).2)
  := by
  rw [KeySpace.execute]
  by_cases hholds : s.holds x.compare = true
  · rw [if_pos hholds]
    by_cases hlease : s.missesLease x.success = true
    · rw [if_pos hlease]
      exact .inl rfl
    · rw [if_neg hlease]
      exact .inr ⟨hholds, Bool.eq_false_iff.mpr hlease, rfl, rfl⟩
  · rw [if_neg hholds]
    exact .inl rfl

theorem mutate_cases (s : KeySpace ι) (i : ι) (m : Mutation) :
  (s.mutate i m).2 = s ∨ ∃ key after, (s.mutate i m).2 = s.change i key after
  := by
  cases m with
  | put key value lease => exact .inr ⟨_, _, rfl⟩
  | deleteRange key =>
      rw [KeySpace.mutate]
      split
      · exact .inl rfl
      · exact .inr ⟨_, _, rfl⟩

theorem execute_change (s : KeySpace ι) (i : ι) (operation : Operation) (x : Txn) :
  (s.execute i operation x).2 = s ∨
    ∃ key after, (s.execute i operation x).2 = s.change i key after
  := by
  obtain hsame | ⟨-, -, -, hmutate⟩ := execute_cases s i operation x
  · exact .inl hsame
  · rw [hmutate]
    apply mutate_cases

@[simp]
theorem inFlight_execute (operation : Operation) (x : Txn) :
  (s.execute i operation x).2.inFlight = s.inFlight
  := by
  obtain hsame | ⟨key, after, hchange⟩ := execute_change s i operation x
  · rw [hsame]
  · rw [hchange]
    rfl

@[simp]
theorem observed_execute (operation : Operation) (x : Txn) :
  (s.execute i operation x).2.observed = s.observed
  := by
  obtain hsame | ⟨key, after, hchange⟩ := execute_change s i operation x
  · rw [hsame]
  · rw [hchange]
    rfl

theorem changesOf_execute_other (hother : j ≠ i) (operation : Operation) (x : Txn) :
  changesOf (s.execute j operation x).2 i = changesOf s i
  := by
  obtain hsame | ⟨key, after, hchange⟩ := execute_change s j operation x
  · rw [hsame]
  · rw [hchange, changesOf_change_other hother]

/-! ### Other calls -/

/-- The calls sees the same in two states. -/
structure SameView (i : ι) (s s' : KeySpace ι) : Prop where
  changes : changesOf s' i = changesOf s i
  flights : flightsOf s' i = flightsOf s i
  observed : s'.observed i = s.observed i

theorem SameView.refl (i : ι) (s : KeySpace ι) :
  SameView i s s
  := ⟨rfl, rfl, rfl⟩

theorem SameView.trans {s'' : KeySpace ι} (h : SameView i s s') (h' : SameView i s' s'') :
  SameView i s s''
  := ⟨h'.changes.trans h.changes, h'.flights.trans h.flights, h'.observed.trans h.observed⟩

theorem sameView_withoutLease (i : ι) (s : KeySpace ι) (lease : ℤ) (removed : Bool) :
  SameView i s (s.withoutLease lease removed)
  := ⟨rfl, rfl, rfl⟩

theorem sameView_observe (hother : j ≠ i) (o : Observation) :
  SameView i s (s.observe j o)
  := by
  refine ⟨rfl, rfl, ?_⟩
  simp [KeySpace.observe, Function.update_of_ne hother.symm]

theorem sameView_note (hother : j ≠ i) (p : Post) (r : Except EtcdError (Response p)) :
  SameView i s (s.note j p r)
  := by
  cases p with
  | range operation key => exact sameView_observe hother _
  | txn operation x =>
      cases r with
      | error e => exact .refl i s
      | ok response =>
          simp only [KeySpace.note]
          split
          · exact .refl i s
          · exact sameView_observe hother _
  | leaseGrant | leaseRevoke => exact .refl i s

theorem sameView_execute (hother : j ≠ i) (operation : Operation) (x : Txn) :
  SameView i s (s.execute j operation x).2
  := by
  constructor
  · exact changesOf_execute_other hother operation x
  · rw [flightsOf, inFlight_execute]
    rfl
  · rw [observed_execute]

theorem sameView_applies (hother : j ≠ i) {p : Post} {r : Except EtcdError (Response p)}
    (h : Applies j p s r s') :
  SameView i s s'
  := by
  cases h with
  | range | leaseMissing => exact .refl i s
  | txn => exact sameView_execute hother _ _
  | leaseGrant hid hfresh => exact ⟨rfl, rfl, rfl⟩
  | leaseRevoke hid removed => exact sameView_withoutLease i s _ removed

variable {marker : ι ↪ Key}

theorem sameView_delivers (hother : j ≠ i) {q : Request} {r : Reply q}
    (h : Delivers marker j q s r s') :
  SameView i s s'
  := by
  cases h with
  | now ht => exact sameView_observe hother _
  | randomUUID => exact .refl i s
  | post happlies => exact (sameView_applies hother happlies).trans (sameView_note hother _ _)

theorem sameView_serves (hother : j ≠ i) {q : Request} {r : Reply q}
    (h : Serves marker j q s r s') :
  SameView i s s'
  := by
  cases h with
  | delivered hdelivers => exact sameView_delivers hother hdelivers
  | failed hf => exact .refl i s
  | lost hf happlies => exact sameView_applies hother happlies
  | late hf =>
      refine ⟨rfl, ?_, rfl⟩
      simp [flightsOf, hother]

/-! ### The key space -/

/-- A transaction takes effect later. -/
theorem view_late {x : Txn} {l₁ l₂ : List (ι × Txn)} (operation : Operation)
    (hflight : s.inFlight = l₁ ++ (j, x) :: l₂) :
  SameView i s { (s.execute j operation x).2 with inFlight := l₁ ++ l₂ } ∨
    (j = i ∧ x ∈ flightsOf s i)
  := by
  by_cases hj : j = i
  · right
    refine ⟨hj, ?_⟩
    subst hj
    rw [mem_flightsOf, hflight]
    simp
  · left
    constructor
    · exact changesOf_execute_other hj operation x
    · simp [flightsOf, hflight, hj]
    · exact congrFun (observed_execute operation x) i

/-- Nothing interferes with the view of a call none of whose transactions may take effect
later. -/
theorem sameView_interferes (h : (keySpaceProtocol marker).Interferes i s s')
    (hflights : flightsOf s i = []) :
  SameView i s s'
  := by
  cases h with
  | call hother hinv hsends hserves => exact sameView_serves hother hserves
  | move hinv hmoves =>
      cases hmoves with
      | late operation hflight =>
          obtain hsame | ⟨-, hmem⟩ := view_late (i := i) operation hflight
          · exact hsame
          · rw [hflights] at hmem
            cases hmem
      | leaseEnds lease removed => exact sameView_withoutLease i s lease removed

end Store.Etcd
