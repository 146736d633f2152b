import GoLike.Registry.Selector.PowerOfTwo

/-!
# The books of power of two choices

The counter of an endpoint state agrees with the selections whose callbacks have not taken effect.
A completion waits in the queue of one endpoint state at most, and only one completion of an
endpoint state runs at a time.
-/

open Store

namespace Registry.P2C

variable {urls : UrlParser} {ε : Type}

/-! ### Balanced ledgers -/

/-- The selections of an endpoint state whose callbacks have not taken effect. -/
def Ledger.pending (l : Ledger ε) (s : ℕ) : Finset ℕ :=
  {d ∈ Finset.range l.selectionCount | (l.selections d).state = s ∧ d ∉ l.effects}

theorem Ledger.mem_pending {l : Ledger ε} {s d : ℕ} :
  d ∈ l.pending s ↔
    d < l.selectionCount ∧ (l.selections d).state = s ∧ d ∉ l.effects
  := by
  rw [Ledger.pending, Finset.mem_filter, Finset.mem_range]

/-- The selections whose completions wait in the queue of an endpoint state. -/
def Ledger.waiting (l : Ledger ε) (s : ℕ) : List ℕ :=
  (l.states s).completionQueue.map QueuedCompletion.selection

/-- The counters agree with the selections. -/
structure Balanced (l : Ledger ε) : Prop where
  inFlight : ∀ s, (l.states s).inFlight = (l.pending s).card
  once : l.effects.Nodup
  completed : ∀ d, d ∈ l.effects ↔
    d < l.selectionCount ∧ (l.selections d).completion = .completed
  counted : ∀ d < l.selectionCount, (l.selections d).state < l.stateCount
  unused : ∀ s, l.stateCount ≤ s → l.states s = newEndpointState
  waits : ∀ s, ∀ d ∈ l.waiting s, d < l.selectionCount ∧ l.selections d = ⟨s, .queued⟩
  waitsOnce : ∀ s, (l.waiting s).Nodup

/-- The calls that have not returned, and the endpoint states whose completions are run. -/
structure Engaged (l : Ledger ε) (admitting : List ℕ) (settling : List (Settling ε))
    (running : List ℕ) : Prop where
  admitted : ∀ d ∈ admitting, d < l.selectionCount ∧ (l.selections d).completion = .admitting
  admittedOnce : admitting.Nodup
  settles : ∀ f ∈ settling, f.selection < l.selectionCount ∧
    l.selections f.selection = ⟨f.state, .queued⟩ ∧ f.selection ∉ l.waiting f.state
  runsOnce : (settling.map Settling.state ++ running).Nodup
  active : ∀ s, (l.states s).completionActive = true ↔
    s ∈ settling.map Settling.state ++ running

theorem balanced_newLedger :
  Balanced (newLedger : Ledger ε)
  := by
  constructor
  case inFlight => exact fun s => rfl
  case once => exact .nil
  case completed =>
    intro d
    constructor
    · exact fun h => absurd h List.not_mem_nil
    · exact fun h => absurd h.1 (Nat.not_lt_zero d)
  case counted => exact fun d hd => absurd hd (Nat.not_lt_zero d)
  case unused => exact fun s _ => rfl
  case waits => exact fun s d hd => absurd hd List.not_mem_nil
  case waitsOnce => exact fun s => .nil

theorem engaged_newLedger :
  Engaged (newLedger : Ledger ε) [] [] []
  := by
  constructor
  case admitted => exact fun d hd => absurd hd List.not_mem_nil
  case admittedOnce => exact .nil
  case settles => exact fun f hf => absurd hf List.not_mem_nil
  case runsOnce => exact .nil
  case active =>
    intro s
    constructor
    · rintro ⟨⟩
    · exact fun h => absurd h List.not_mem_nil

/-- A selection that waits is not in a queue of another endpoint state. -/
theorem Balanced.waiting_unique {l : Ledger ε} (h : Balanced l) {d s : ℕ} {i : IssuedSelection}
    (hd : l.selections d = i) (hqueue : i.completion = .queued → d ∉ l.waiting i.state) :
  d ∉ l.waiting s
  := by
  intro hmem
  obtain ⟨_, hqueued⟩ := h.waits s d hmem
  obtain rfl := hd.symm.trans hqueued
  exact hqueue rfl hmem

/-! ### Steps of the ledger

The books of an endpoint state are its counters and its deadline. They change only when a selection
is issued that counts in it, and when the callback of one takes effect.
-/

/-- The books of an endpoint state are the same. -/
structure SameBooks (s s' : P2CEndpointState ε) : Prop where
  inFlight : s'.inFlight = s.inFlight
  consecutiveFailures : s'.consecutiveFailures = s.consecutiveFailures
  cooldownUntil : s'.cooldownUntil = s.cooldownUntil

theorem SameBooks.refl (s : P2CEndpointState ε) :
  SameBooks s s
  := ⟨rfl, rfl, rfl⟩

theorem SameBooks.trans {s s' s'' : P2CEndpointState ε} (h : SameBooks s s')
    (h' : SameBooks s' s'') :
  SameBooks s s''
  := ⟨h'.inFlight.trans h.inFlight, h'.consecutiveFailures.trans h.consecutiveFailures,
    h'.cooldownUntil.trans h.cooldownUntil⟩

/-- What a step changes in the ledger: the completions that take effect are among the given ones. -/
structure Changes (among : List ℕ) (l l' : Ledger ε) : Prop where
  stateCount : l'.stateCount = l.stateCount
  selectionCount : l'.selectionCount = l.selectionCount
  states : ∀ d, (l'.selections d).state = (l.selections d).state
  untouched : ∀ d, d ∉ among → l'.selections d = l.selections d
  effects : ∀ d ∈ l'.effects, d ∈ l.effects ∨ d ∈ among
  stays : l.effects ⊆ l'.effects
  books : ∀ s, (∀ d ∈ l'.effects, (l.selections d).state = s → d ∈ l.effects) →
    SameBooks (l.states s) (l'.states s)

theorem Changes.trans {among among' : List ℕ} {l l' l'' : Ledger ε} (h : Changes among l l')
    (h' : Changes among' l' l'') :
  Changes (among ++ among') l l''
  := by
  constructor
  case stateCount => exact h'.stateCount.trans h.stateCount
  case selectionCount => exact h'.selectionCount.trans h.selectionCount
  case states => exact fun d => (h'.states d).trans (h.states d)
  case untouched =>
    intro d hd
    rw [List.mem_append, not_or] at hd
    exact (h'.untouched d hd.2).trans (h.untouched d hd.1)
  case effects =>
    intro d hd
    rw [List.mem_append, ← or_assoc]
    exact (h'.effects d hd).imp_left (h.effects d)
  case stays => exact fun d hd => h'.stays (h.stays hd)
  case books =>
    intro s hs
    apply (h.books s _).trans (h'.books s _)
    · exact fun d hd hstate => hs d (h'.stays hd) hstate
    · intro d hd hstate
      rw [h.states d] at hstate
      exact h.stays (hs d hd hstate)

/-! ### Completions that do not take effect -/

section

variable {l : Ledger ε}

theorem states_setState (s : ℕ) (state : P2CEndpointState ε) (s' : ℕ) :
  (l.setState s state).states s' = if s' = s then state else l.states s'
  := Function.update_apply _ _ _ _

theorem selections_setCompletion (d : ℕ) (completion : Completion) (d' : ℕ) :
  (l.setCompletion d completion).selections d' =
    if d' = d then ⟨(l.selections d).state, completion⟩ else l.selections d'
  := Function.update_apply _ _ _ _

theorem selections_setCompletion_of_ne {d d' : ℕ} (h : d' ≠ d) (completion : Completion) :
  (l.setCompletion d completion).selections d' = l.selections d'
  := by rw [selections_setCompletion, if_neg h]

theorem states_setCompletion (d : ℕ) (completion : Completion) (d' : ℕ) :
  ((l.setCompletion d completion).selections d').state = (l.selections d').state
  := by
  rw [selections_setCompletion]
  split
  · rename_i h
    rw [h]
  · rfl

theorem waiting_setState (s : ℕ) (state : P2CEndpointState ε) (s' : ℕ) :
  (l.setState s state).waiting s' =
    if s' = s then state.completionQueue.map QueuedCompletion.selection else l.waiting s'
  := by
  rw [Ledger.waiting, states_setState]
  split
  · rfl
  · rfl

/-- The queue and the activity of an endpoint state are not in the books. -/
theorem changes_setState {s : ℕ} {state : P2CEndpointState ε}
    (h : SameBooks (l.states s) state) :
  Changes [] l (l.setState s state)
  := by
  constructor
  case stateCount => rfl
  case selectionCount => rfl
  case states => exact fun d => rfl
  case untouched => exact fun d _ => rfl
  case effects => exact fun d hd => .inl hd
  case stays => exact fun d hd => hd
  case books =>
    intro s' _
    rw [states_setState]
    split
    · rename_i hs
      rw [hs]
      exact h
    · exact .refl _

theorem changes_setCompletion (d : ℕ) (completion : Completion) :
  Changes [d] l (l.setCompletion d completion)
  := by
  constructor
  case stateCount => rfl
  case selectionCount => rfl
  case states => exact states_setCompletion d completion
  case untouched =>
    exact fun d' hd => selections_setCompletion_of_ne (fun h => hd (List.mem_singleton.mpr h)) _
  case effects => exact fun d' hd => .inl hd
  case stays => exact fun d' hd => hd
  case books => exact fun s _ => .refl _

/-- A callback that does not take effect, and does not wait in a queue, goes on. -/
theorem Balanced.setCompletion (h : Balanced l) {d : ℕ} {completion : Completion}
    (hbefore : d ∉ l.effects) (hafter : completion ≠ .completed)
    (hqueue : ∀ s, d ∉ l.waiting s) :
  Balanced (l.setCompletion d completion)
  := by
  constructor
  case inFlight =>
    intro s
    have hpending : (l.setCompletion d completion).pending s = l.pending s := by
      ext d'
      rw [Ledger.mem_pending, Ledger.mem_pending, states_setCompletion]
      rfl
    rw [hpending]
    exact h.inFlight s
  case once => exact h.once
  case completed =>
    intro d'
    rw [selections_setCompletion]
    split
    · rename_i hd
      rw [hd]
      exact iff_of_false hbefore fun hc => hafter hc.2
    · exact h.completed d'
  case counted =>
    intro d' hd'
    rw [states_setCompletion]
    exact h.counted d' hd'
  case unused => exact h.unused
  case waits =>
    intro s d' hd'
    have hne : d' ≠ d := by
      rintro rfl
      exact hqueue s hd'
    rw [selections_setCompletion_of_ne hne]
    exact h.waits s d' hd'
  case waitsOnce => exact h.waitsOnce

/-- The queue and the activity of an endpoint state change. -/
theorem Balanced.setState (h : Balanced l) {s : ℕ} {state : P2CEndpointState ε}
    (hsame : SameBooks (l.states s) state) (hs : s < l.stateCount)
    (hwaits : ∀ d ∈ state.completionQueue.map QueuedCompletion.selection,
      d < l.selectionCount ∧ l.selections d = ⟨s, .queued⟩)
    (honce : (state.completionQueue.map QueuedCompletion.selection).Nodup) :
  Balanced (l.setState s state)
  := by
  constructor
  case inFlight =>
    intro s'
    have hpending : (l.setState s state).pending s' = l.pending s' := rfl
    rw [hpending, states_setState, ← h.inFlight s']
    split
    · rename_i heq
      rw [heq]
      exact hsame.inFlight
    · rfl
  case once => exact h.once
  case completed => exact h.completed
  case counted => exact h.counted
  case unused =>
    intro s' hs'
    rw [states_setState, if_neg (hs.trans_le hs').ne']
    exact h.unused s' hs'
  case waits =>
    intro s' d hd
    rw [waiting_setState] at hd
    split at hd
    · rename_i heq
      rw [heq]
      exact hwaits d hd
    · exact h.waits s' d hd
  case waitsOnce =>
    intro s'
    rw [waiting_setState]
    split
    · exact honce
    · exact h.waitsOnce s'

/-! ### Selections and effects -/

theorem changes_settle {s d failures : ℕ} {deadline : ℚ} (hd : (l.selections d).state = s)
    (hnew : d ∉ l.effects) :
  Changes [d] l (l.settle s d failures deadline)
  := by
  constructor
  case stateCount => rfl
  case selectionCount => rfl
  case states => exact states_setCompletion d .completed
  case untouched =>
    exact fun d' hd' => selections_setCompletion_of_ne (fun h => hd' (List.mem_singleton.mpr h)) _
  case effects => exact fun d' hd' => List.mem_append.mp hd'
  case stays => exact fun d' hd' => List.mem_append_left _ hd'
  case books =>
    intro s' hs'
    have hne : s' ≠ s := by
      rintro rfl
      exact hnew (hs' d (List.mem_append_right _ (List.mem_singleton_self d)) hd)
    have hsame : (l.settle s d failures deadline).states s' = l.states s' := by
      change (l.setState s _).states s' = _
      rw [states_setState, if_neg hne]
    rw [hsame]
    exact .refl _

theorem pending_settle {s d failures : ℕ} {deadline : ℚ} (s' : ℕ) :
  (l.settle s d failures deadline).pending s' = (l.pending s').erase d
  := by
  ext d'
  have hstate : ((l.settle s d failures deadline).selections d').state =
      (l.selections d').state := states_setCompletion d .completed d'
  have heffects : d' ∉ (l.settle s d failures deadline).effects ↔ d' ≠ d ∧ d' ∉ l.effects := by
    rw [Ledger.settle, List.mem_append, List.mem_singleton, not_or, and_comm]
  rw [Finset.mem_erase, Ledger.mem_pending, Ledger.mem_pending, hstate, heffects]
  tauto

/-- A completion that has been taken from its queue takes effect. -/
theorem Balanced.settle (h : Balanced l) {s d failures : ℕ} {deadline : ℚ}
    (hcount : d < l.selectionCount) (hd : l.selections d = ⟨s, .queued⟩)
    (hqueue : d ∉ l.waiting s) :
  Balanced (l.settle s d failures deadline)
  := by
  have hs : s < l.stateCount := by
    have hcounted := h.counted d hcount
    rw [hd] at hcounted
    exact hcounted
  have hnew : d ∉ l.effects := by
    rw [h.completed d, hd]
    rintro ⟨_, ⟨⟩⟩
  have hothers : ∀ s', d ∉ l.waiting s' := fun s' => h.waiting_unique hd fun _ => hqueue
  have hwaiting : ∀ s', (l.settle s d failures deadline).waiting s' = l.waiting s' := by
    intro s'
    change (l.setState s _).waiting s' = _
    rw [waiting_setState]
    split
    · rename_i heq
      rw [heq]
      rfl
    · rfl
  have hstates : ∀ s', (l.settle s d failures deadline).states s' =
      if s' = s then
        { l.states s with
          inFlight := (l.states s).inFlight - 1
          consecutiveFailures := failures
          cooldownUntil := deadline }
      else l.states s' := fun s' => states_setState s _ s'
  have hselections : ∀ d', (l.settle s d failures deadline).selections d' =
      if d' = d then ⟨(l.selections d).state, .completed⟩ else l.selections d' :=
    fun d' => selections_setCompletion d .completed d'
  constructor
  case inFlight =>
    intro s'
    rw [hstates, pending_settle]
    split
    · rename_i heq
      have hmem : d ∈ l.pending s' := by
        rw [Ledger.mem_pending, hd, heq]
        exact ⟨hcount, rfl, hnew⟩
      have hpos : 0 < (l.pending s').card := Finset.card_pos.mpr ⟨d, hmem⟩
      rw [Finset.card_erase_of_mem hmem, ← heq]
      dsimp only
      rw [h.inFlight s']
      omega
    · rename_i hne
      have hnot : d ∉ l.pending s' := by
        rw [Ledger.mem_pending, hd]
        exact fun hmem => hne hmem.2.1.symm
      rw [Finset.erase_eq_of_notMem hnot]
      exact h.inFlight s'
  case once => exact h.once.append (List.nodup_singleton d) (List.disjoint_singleton.mpr hnew)
  case completed =>
    intro d'
    rw [hselections]
    split
    · rename_i heq
      rw [heq]
      exact iff_of_true (List.mem_append_right _ (List.mem_singleton_self d)) ⟨hcount, rfl⟩
    · rename_i hne
      rw [Ledger.settle, List.mem_append, List.mem_singleton]
      exact (or_iff_left hne).trans (h.completed d')
  case counted =>
    intro d' hd'
    rw [(changes_settle (by rw [hd]) hnew).states d']
    exact h.counted d' hd'
  case unused =>
    intro s' hs'
    rw [hstates, if_neg (hs.trans_le hs').ne']
    exact h.unused s' hs'
  case waits =>
    intro s' d' hd'
    rw [hwaiting] at hd'
    have hne : d' ≠ d := by
      rintro rfl
      exact hothers s' hd'
    rw [hselections, if_neg hne]
    exact h.waits s' d' hd'
  case waitsOnce =>
    intro s'
    rw [hwaiting]
    exact h.waitsOnce s'

theorem states_create (h : Balanced l) :
  l.create.states = l.states
  := by
  funext s
  change (l.setState _ _).states s = _
  rw [states_setState]
  split
  · rename_i heq
    rw [heq, h.unused _ le_rfl]
  · rfl

/-- A new endpoint state has no selections. -/
theorem Balanced.create (h : Balanced l) :
  Balanced l.create
  := by
  have hstates := states_create h
  have hwaiting : ∀ s, l.create.waiting s = l.waiting s := by
    intro s
    rw [Ledger.waiting, hstates]
    rfl
  constructor
  case inFlight =>
    intro s
    rw [hstates]
    exact h.inFlight s
  case once => exact h.once
  case completed => exact h.completed
  case counted => exact fun d hd => (h.counted d hd).trans (Nat.lt_succ_self _)
  case unused =>
    intro s hs
    rw [hstates]
    exact h.unused s ((Nat.le_succ _).trans hs)
  case waits =>
    intro s
    rw [hwaiting]
    exact h.waits s
  case waitsOnce =>
    intro s
    rw [hwaiting]
    exact h.waitsOnce s

theorem selections_issue (s d : ℕ) :
  (l.issue s).selections d = if d = l.selectionCount then ⟨s, .opened⟩ else l.selections d
  := Function.update_apply _ _ _ _

theorem states_issue (s s' : ℕ) :
  (l.issue s).states s' =
    if s' = s then { l.states s with inFlight := (l.states s).inFlight + 1 } else l.states s'
  := states_setState s _ s'

theorem waiting_issue (s s' : ℕ) :
  (l.issue s).waiting s' = l.waiting s'
  := by
  rw [Ledger.waiting, states_issue]
  split
  · rename_i heq
    rw [heq]
    rfl
  · rfl

/-- A selection that is issued counts in its endpoint state. -/
theorem Balanced.issue (h : Balanced l) {s : ℕ} (hs : s < l.stateCount) :
  Balanced (l.issue s)
  := by
  have hnew : l.selectionCount ∉ l.effects := by
    rw [h.completed]
    exact fun hmem => absurd hmem.1 (lt_irrefl _)
  have hold : ∀ d < l.selectionCount, (l.issue s).selections d = l.selections d := by
    intro d hd
    rw [selections_issue, if_neg hd.ne]
  have hpending : ∀ s', (l.issue s).pending s' =
      if s' = s then insert l.selectionCount (l.pending s') else l.pending s' := by
    intro s'
    ext d
    have hmem : d ∈ (l.issue s).pending s' ↔
        d < l.selectionCount + 1 ∧ ((l.issue s).selections d).state = s' ∧ d ∉ l.effects :=
      Ledger.mem_pending
    rw [hmem, selections_issue, Nat.lt_succ_iff_lt_or_eq]
    by_cases hd : d = l.selectionCount
    · rw [if_pos hd, hd]
      split
      · rename_i heq
        simp [heq, hnew]
      · rename_i hne
        simp [Ledger.mem_pending, Ne.symm hne]
    · rw [if_neg hd]
      split
      · simp [Ledger.mem_pending, hd]
      · simp [Ledger.mem_pending, hd]
  constructor
  case inFlight =>
    intro s'
    rw [states_issue, hpending]
    split
    · rename_i heq
      have hnot : l.selectionCount ∉ l.pending s' := by
        rw [Ledger.mem_pending]
        exact fun hmem => absurd hmem.1 (lt_irrefl _)
      rw [Finset.card_insert_of_notMem hnot, ← heq]
      dsimp only
      rw [h.inFlight s', Nat.cast_add, Nat.cast_one]
    · exact h.inFlight s'
  case once => exact h.once
  case completed =>
    intro d
    rw [selections_issue]
    split
    · rename_i heq
      rw [heq]
      apply iff_of_false hnew
      rintro ⟨_, ⟨⟩⟩
    · rename_i hne
      have hlt : d < l.selectionCount + 1 ↔ d < l.selectionCount := by omega
      exact (h.completed d).trans (and_congr_left fun _ => hlt.symm)
  case counted =>
    intro d hd
    rw [selections_issue]
    split
    · exact hs
    · rename_i hne
      have hlt : d < l.selectionCount := by
        have hd : d < l.selectionCount + 1 := hd
        omega
      exact h.counted d hlt
  case unused =>
    intro s' hs'
    rw [states_issue, if_neg (hs.trans_le hs').ne']
    exact h.unused s' hs'
  case waits =>
    intro s' d hd
    rw [waiting_issue] at hd
    obtain ⟨hcount, hqueued⟩ := h.waits s' d hd
    rw [hold d hcount]
    exact ⟨hcount.trans (Nat.lt_succ_self _), hqueued⟩
  case waitsOnce =>
    intro s'
    rw [waiting_issue]
    exact h.waitsOnce s'

/-! ### Calls that have not returned -/

variable {admitting running : List ℕ} {settling : List (Settling ε)}

/-- A completion that settles is the only one of its endpoint state. -/
theorem Engaged.settles_ne (h : Engaged l admitting settling running) {s d : ℕ}
    (hs : s ∈ running) (hd : l.selections d = ⟨s, .queued⟩) {f : Settling ε}
    (hf : f ∈ settling) :
  f.selection ≠ d
  := by
  rintro rfl
  obtain ⟨_, hqueued, _⟩ := h.settles f hf
  have hstate : f.state = s := congrArg IssuedSelection.state (hqueued.symm.trans hd)
  have hdisjoint := (List.nodup_append.mp h.runsOnce).2.2
  exact hdisjoint _ (List.mem_map_of_mem hf) _ hs hstate

/-- The queue and the activity of an endpoint state change. -/
theorem Engaged.setState (h : Engaged l admitting settling running) {s : ℕ}
    {state : P2CEndpointState ε} {running' : List ℕ}
    (hqueue : ∀ f ∈ settling, f.state = s →
      f.selection ∉ state.completionQueue.map QueuedCompletion.selection)
    (honce : (settling.map Settling.state ++ running').Nodup)
    (hactive : state.completionActive = true ↔ s ∈ settling.map Settling.state ++ running')
    (hothers : ∀ s', s' ≠ s → (s' ∈ running' ↔ s' ∈ running)) :
  Engaged (l.setState s state) admitting settling running'
  := by
  constructor
  case admitted => exact h.admitted
  case admittedOnce => exact h.admittedOnce
  case settles =>
    intro f hf
    obtain ⟨hcount, hqueued, hnot⟩ := h.settles f hf
    refine ⟨hcount, hqueued, ?_⟩
    rw [waiting_setState]
    split
    · rename_i heq
      exact hqueue f hf heq
    · exact hnot
  case runsOnce => exact honce
  case active =>
    intro s'
    rw [states_setState]
    split
    · rename_i heq
      rw [heq]
      exact hactive
    · rename_i hne
      rw [h.active s', List.mem_append, List.mem_append, hothers s' hne]

/-- The queue of an endpoint state whose completions are run changes. -/
theorem Engaged.setQueue (h : Engaged l admitting settling running) {s : ℕ}
    {state : P2CEndpointState ε} (hs : s ∈ running)
    (hactive : state.completionActive = (l.states s).completionActive) :
  Engaged (l.setState s state) admitting settling running
  := by
  apply h.setState
  · intro f hf heq
    have hdisjoint := (List.nodup_append.mp h.runsOnce).2.2
    exact absurd heq (hdisjoint _ (List.mem_map_of_mem hf) _ hs)
  · exact h.runsOnce
  · rw [hactive]
    exact h.active s
  · exact fun _ _ => Iff.rfl

/-- Another callback goes on. -/
theorem Engaged.setCompletion (h : Engaged l admitting settling running) {d : ℕ}
    {completion : Completion} (hadmitting : d ∉ admitting)
    (hsettling : ∀ f ∈ settling, f.selection ≠ d) :
  Engaged (l.setCompletion d completion) admitting settling running
  := by
  constructor
  case admitted =>
    intro d' hd'
    have hne : d' ≠ d := by
      rintro rfl
      exact hadmitting hd'
    rw [selections_setCompletion_of_ne hne]
    exact h.admitted d' hd'
  case admittedOnce => exact h.admittedOnce
  case settles =>
    intro f hf
    rw [selections_setCompletion_of_ne (hsettling f hf)]
    exact h.settles f hf
  case runsOnce => exact h.runsOnce
  case active => exact h.active

/-- A callback is called. -/
theorem Engaged.admits (h : Engaged l admitting settling running) {d : ℕ}
    (hcount : d < l.selectionCount) (hopened : (l.selections d).completion = .opened) :
  Engaged (l.setCompletion d .admitting) (d :: admitting) settling running
  := by
  have hnot : d ∉ admitting := by
    intro hmem
    rw [(h.admitted d hmem).2] at hopened
    cases hopened
  have hset : Engaged (l.setCompletion d .admitting) admitting settling running := by
    apply h.setCompletion hnot
    rintro f hf rfl
    rw [(h.settles f hf).2.1] at hopened
    cases hopened
  constructor
  case admitted =>
    intro d' hd'
    obtain rfl | hd' := List.mem_cons.mp hd'
    · rw [selections_setCompletion, if_pos rfl]
      exact ⟨hcount, rfl⟩
    · exact hset.admitted d' hd'
  case admittedOnce => exact List.nodup_cons.mpr ⟨hnot, h.admittedOnce⟩
  case settles => exact hset.settles
  case runsOnce => exact hset.runsOnce
  case active => exact hset.active

/-- A callback is refused, or admitted: it is called no more. -/
theorem Engaged.admitted_rest {d : ℕ} (h : Engaged l (d :: admitting) settling running)
    (completion : Completion) :
  Engaged (l.setCompletion d completion) admitting settling running
  := by
  obtain ⟨_, hadmitted⟩ := h.admitted d List.mem_cons_self
  have hrest : Engaged l admitting settling running := by
    constructor
    case admitted => exact fun d' hd' => h.admitted d' (List.mem_cons_of_mem _ hd')
    case admittedOnce => exact (List.nodup_cons.mp h.admittedOnce).2
    case settles => exact h.settles
    case runsOnce => exact h.runsOnce
    case active => exact h.active
  apply hrest.setCompletion (List.nodup_cons.mp h.admittedOnce).1
  rintro f hf rfl
  rw [(h.settles f hf).2.1] at hadmitted
  cases hadmitted

/-- A callback that is called neither takes effect nor waits. -/
theorem Balanced.not_queued (hb : Balanced l) {d : ℕ}
    (h : (l.selections d).completion = .opened ∨ (l.selections d).completion = .admitting) :
  d ∉ l.effects ∧ ∀ s, d ∉ l.waiting s
  := by
  constructor
  · rw [hb.completed d]
    rintro ⟨_, hcompleted⟩
    rw [hcompleted] at h
    obtain ⟨⟨⟩⟩ | ⟨⟨⟩⟩ := h
  · intro s
    apply hb.waiting_unique rfl
    intro hqueued
    rw [hqueued] at h
    obtain ⟨⟨⟩⟩ | ⟨⟨⟩⟩ := h

theorem Engaged.create (hb : Balanced l) (h : Engaged l admitting settling running) :
  Engaged l.create admitting settling running
  := by
  constructor
  case admitted => exact h.admitted
  case admittedOnce => exact h.admittedOnce
  case settles =>
    intro f hf
    rw [Ledger.waiting, states_create hb]
    exact h.settles f hf
  case runsOnce => exact h.runsOnce
  case active =>
    rw [states_create hb]
    exact h.active

/-- A selection is issued. -/
theorem Engaged.issue (h : Engaged l admitting settling running) (s : ℕ) :
  Engaged (l.issue s) admitting settling running
  := by
  have hold : ∀ d < l.selectionCount, (l.issue s).selections d = l.selections d := by
    intro d hd
    rw [selections_issue, if_neg hd.ne]
  constructor
  case admitted =>
    intro d hd
    obtain ⟨hcount, hadmitted⟩ := h.admitted d hd
    rw [hold d hcount]
    exact ⟨hcount.trans (Nat.lt_succ_self _), hadmitted⟩
  case admittedOnce => exact h.admittedOnce
  case settles =>
    intro f hf
    obtain ⟨hcount, hqueued, hnot⟩ := h.settles f hf
    rw [hold _ hcount, waiting_issue]
    exact ⟨hcount.trans (Nat.lt_succ_self _), hqueued, hnot⟩
  case runsOnce => exact h.runsOnce
  case active =>
    intro s'
    rw [states_issue]
    split
    · rename_i heq
      rw [heq]
      exact h.active s
    · exact h.active s'

/-- A completion that is run takes effect. -/
theorem Engaged.settle (h : Engaged l admitting settling running) {s d failures : ℕ}
    {deadline : ℚ} (hs : s ∈ running) (hd : l.selections d = ⟨s, .queued⟩) :
  Engaged (l.settle s d failures deadline) admitting settling running
  := by
  have hadmitting : d ∉ admitting := by
    intro hmem
    have hcompletion := (h.admitted d hmem).2
    rw [hd] at hcompletion
    cases hcompletion
  let state : P2CEndpointState ε :=
    { l.states s with
      inFlight := (l.states s).inFlight - 1
      consecutiveFailures := failures
      cooldownUntil := deadline }
  have hqueue : Engaged (l.setState s state) admitting settling running := h.setQueue hs rfl
  have hset : Engaged ((l.setState s state).setCompletion d .completed) admitting settling
      running := hqueue.setCompletion hadmitting fun f hf => h.settles_ne hs hd hf
  exact ⟨hset.admitted, hset.admittedOnce, hset.settles, hset.runsOnce, hset.active⟩

/-- A completion of an endpoint state, whose completions are run, reads the clock. -/
theorem Engaged.pause (h : Engaged l admitting settling running) {f : Settling ε}
    (hrunning : running = [f.state]) (hcount : f.selection < l.selectionCount)
    (hqueued : l.selections f.selection = ⟨f.state, .queued⟩)
    (hnot : f.selection ∉ l.waiting f.state) :
  Engaged l admitting (f :: settling) []
  := by
  have hperm : ((f :: settling).map Settling.state ++ []).Perm
      (settling.map Settling.state ++ running) := by
    rw [hrunning, List.append_nil, List.map_cons]
    exact (List.perm_append_singleton _ _).symm
  constructor
  case admitted => exact h.admitted
  case admittedOnce => exact h.admittedOnce
  case settles =>
    intro f' hf'
    obtain rfl | hf' := List.mem_cons.mp hf'
    · exact ⟨hcount, hqueued, hnot⟩
    · exact h.settles f' hf'
  case runsOnce => exact hperm.nodup_iff.mpr h.runsOnce
  case active => exact fun s => (h.active s).trans hperm.mem_iff.symm

/-- A completion that has read the clock is run. -/
theorem Engaged.resume {f : Settling ε} (h : Engaged l admitting (f :: settling) []) :
  Engaged l admitting settling [f.state]
  := by
  have hperm : ((f :: settling).map Settling.state ++ []).Perm
      (settling.map Settling.state ++ [f.state]) := by
    rw [List.append_nil, List.map_cons]
    exact (List.perm_append_singleton _ _).symm
  constructor
  case admitted => exact h.admitted
  case admittedOnce => exact h.admittedOnce
  case settles => exact fun f' hf' => h.settles f' (List.mem_cons_of_mem _ hf')
  case runsOnce => exact hperm.nodup_iff.mp h.runsOnce
  case active => exact fun s => (h.active s).trans hperm.mem_iff

/-! ### Runs of completions -/

/-- The completions of an endpoint state are being run. -/
structure Running (l : Ledger ε) (admitting : List ℕ) (settling : List (Settling ε)) (s : ℕ) :
    Prop where
  balanced : Balanced l
  engaged : Engaged l admitting settling [s]
  counted : s < l.stateCount

/-- What the completions of an endpoint state leave. -/
structure Ran (l : Ledger ε) (admitting : List ℕ) (settling : List (Settling ε))
    (among : List ℕ) (outcome : Ledger ε × Option (Settling ε) × Reply ε urls) : Prop where
  balanced : Balanced outcome.1
  engaged : Engaged outcome.1 admitting (outcome.2.1.toList ++ settling) []
  changes : Changes among l outcome.1

variable {s : ℕ}

/-- The first completion of the queue begins. -/
theorem Running.begin (h : Running l admitting settling s) {queued : QueuedCompletion ε}
    {others : List (QueuedCompletion ε)}
    (hqueue : (l.states s).completionQueue = queued :: others) :
  Running (l.begin s others) admitting settling s ∧
    queued.selection < l.selectionCount ∧ l.selections queued.selection = ⟨s, .queued⟩ ∧
    queued.selection ∉ (l.begin s others).waiting s
  := by
  have hwaiting : l.waiting s = queued.selection :: others.map QueuedCompletion.selection := by
    rw [Ledger.waiting, hqueue, List.map_cons]
  have hwaits := h.balanced.waits s
  have honce := h.balanced.waitsOnce s
  rw [hwaiting] at hwaits honce
  obtain ⟨hcount, hqueued⟩ := hwaits _ List.mem_cons_self
  refine ⟨⟨?_, h.engaged.setQueue (List.mem_singleton_self s) rfl, h.counted⟩, hcount, hqueued, ?_⟩
  · exact h.balanced.setState ⟨rfl, rfl, rfl⟩ h.counted
      (fun d hd => hwaits d (List.mem_cons_of_mem _ hd)) (List.nodup_cons.mp honce).2
  · rw [Ledger.begin, waiting_setState, if_pos rfl]
    exact (List.nodup_cons.mp honce).1

/-- A completion that has begun takes effect. -/
theorem Running.settle (h : Running l admitting settling s) {d : ℕ} (failures : ℕ)
    (deadline : ℚ) (hcount : d < l.selectionCount) (hd : l.selections d = ⟨s, .queued⟩)
    (hqueue : d ∉ l.waiting s) :
  Running (l.settle s d failures deadline) admitting settling s ∧
    Changes [d] l (l.settle s d failures deadline)
  := by
  have hnew : d ∉ l.effects := by
    rw [h.balanced.completed d, hd]
    rintro ⟨_, ⟨⟩⟩
  exact ⟨⟨h.balanced.settle hcount hd hqueue, h.engaged.settle (List.mem_singleton_self s) hd,
    h.counted⟩, changes_settle (by rw [hd]) hnew⟩

theorem queue_settle (d failures : ℕ) (deadline : ℚ) :
  ((l.settle s d failures deadline).states s).completionQueue = (l.states s).completionQueue
  := by
  change ((l.setState s _).states s).completionQueue = _
  rw [states_setState, if_pos rfl]

theorem queue_begin (others : List (QueuedCompletion ε)) :
  ((l.begin s others).states s).completionQueue = others
  := by
  rw [Ledger.begin, states_setState, if_pos rfl]

variable (urls) in
/-- The completions of an endpoint state are run one after the other. -/
theorem ran_runSerializedCompletion (b : P2CSelector) (h : Running l admitting settling s)
    (errors : List (SelectorError ε)) {queue : List (QueuedCompletion ε)}
    (hqueue : (l.states s).completionQueue = queue) :
  Ran l admitting settling (queue.map QueuedCompletion.selection)
    (runSerializedCompletion b urls s errors l queue)
  := by
  induction queue generalizing l with
  | nil =>
      rw [runSerializedCompletion]
      constructor
      case balanced =>
        exact h.balanced.setState ⟨rfl, rfl, rfl⟩ h.counted (fun d hd => absurd hd List.not_mem_nil)
          .nil
      case engaged =>
        obtain ⟨honce, _, hdisjoint⟩ := List.nodup_append.mp h.engaged.runsOnce
        apply h.engaged.setState
        · exact fun f _ _ => List.not_mem_nil
        · rw [List.append_nil]
          exact honce
        · rw [List.append_nil]
          apply iff_of_false Bool.false_ne_true
          exact fun hmem => hdisjoint s hmem s (List.mem_singleton_self s) rfl
        · intro s' hs'
          rw [List.mem_singleton]
          exact iff_of_false List.not_mem_nil hs'
      case changes => exact changes_setState ⟨rfl, rfl, rfl⟩
  | cons queued others ih =>
      obtain ⟨hbegin, hcount, hqueued, hnot⟩ := h.begin hqueue
      have hchanges : Changes [] l (l.begin s others) := changes_setState ⟨rfl, rfl, rfl⟩
      -- the completion takes effect, and the others are run
      have hnext : ∀ failures deadline, Ran l admitting settling
          ((queued :: others).map QueuedCompletion.selection)
          (runSerializedCompletion b urls s errors
            ((l.begin s others).settle s queued.selection failures deadline) others) := by
        intro failures deadline
        obtain ⟨hrunning, hsettle⟩ := hbegin.settle failures deadline hcount hqueued hnot
        obtain ⟨hbalanced, hengaged, hothers⟩ :=
          ih hrunning ((queue_settle _ _ _).trans (queue_begin others))
        exact ⟨hbalanced, hengaged, (hchanges.trans hsettle).trans hothers⟩
      rw [runSerializedCompletion]
      dsimp only
      split
      · exact hnext 0 0
      · split
        · constructor
          case balanced => exact hbegin.balanced
          case engaged => exact hbegin.engaged.pause rfl hcount hqueued hnot
          case changes =>
            exact ⟨rfl, rfl, fun d => rfl, fun d _ => rfl, fun d hd => .inl hd, fun d hd => hd,
              hchanges.books⟩
        · exact hnext _ _

/-- A completion whose reading of the clock fails does not take effect, and can be called again. -/
structure Reopened (l : Ledger ε) (d : ℕ) : Prop where
  counted : d < l.selectionCount
  opened : (l.selections d).completion = .opened
  ineffective : d ∉ l.effects

/-- A completion that has read the clock goes on. -/
theorem ran_settleCompletion (b : P2CSelector) {f : Settling ε} (result : SourceResult ε)
    (hb : Balanced l) (he : Engaged l admitting (f :: settling) []) :
  Ran l admitting settling (f.selection :: l.waiting f.state)
      (settleCompletion b urls f result l) ∧
    ∀ e, monotonicNow result = .error e →
      Reopened (settleCompletion b urls f result l).1 f.selection
  := by
  obtain ⟨hcount, hqueued, hnot⟩ := he.settles f List.mem_cons_self
  have hcounted : f.state < l.stateCount := by
    have h := hb.counted f.selection hcount
    rw [hqueued] at h
    exact h
  have hnew : f.selection ∉ l.effects := by
    rw [hb.completed f.selection, hqueued]
    rintro ⟨_, ⟨⟩⟩
  have hrunning : Running l admitting settling f.state := ⟨hb, he.resume, hcounted⟩
  rw [settleCompletion]
  split
  · rename_i e _
    have hadmitting : f.selection ∉ admitting := by
      intro hmem
      have hcompletion := (he.admitted f.selection hmem).2
      rw [hqueued] at hcompletion
      cases hcompletion
    have hopened : Running (l.setCompletion f.selection .opened) admitting settling f.state := by
      constructor
      case balanced =>
        apply hb.setCompletion hnew (by rintro ⟨⟩)
        exact fun s => hb.waiting_unique hqueued fun _ => hnot
      case engaged =>
        exact hrunning.engaged.setCompletion hadmitting
          fun f' hf' => hrunning.engaged.settles_ne (List.mem_singleton_self _) hqueued hf'
      case counted => exact hcounted
    have hqueue : ((l.setCompletion f.selection .opened).states f.state).completionQueue =
        (l.states f.state).completionQueue := rfl
    have hran := ran_runSerializedCompletion urls b hopened (f.errors ++ [e]) hqueue
    constructor
    · exact ⟨hran.balanced, hran.engaged,
        (changes_setCompletion f.selection .opened).trans hran.changes⟩
    · intro _ _
      constructor
      case counted =>
        rw [hran.changes.selectionCount]
        exact hcount
      case opened =>
        rw [hran.changes.untouched _ hnot, selections_setCompletion, if_pos rfl]
      case ineffective =>
        intro hmem
        exact (hran.changes.effects _ hmem).elim hnew hnot
  · rename_i now hnow
    obtain ⟨hsettled, hchanges⟩ :=
      hrunning.settle f.failures (cooldownDeadline b now) hcount hqueued hnot
    have hran := ran_runSerializedCompletion urls b hsettled f.errors (queue_settle _ _ _)
    constructor
    · exact ⟨hran.balanced, hran.engaged, hchanges.trans hran.changes⟩
    · intro e he
      rw [hnow] at he
      cases he

variable (urls) in
/-- A callback that has been admitted waits for its turn, and its completion is run. -/
theorem ran_queueCompletion (b : P2CSelector) {d : ℕ} (failure : Option ε)
    (hb : Balanced l) (he : Engaged l (d :: admitting) settling []) :
  ∃ among, Ran l admitting settling among (queueCompletion b urls d failure l)
  := by
  obtain ⟨hcount, hadmitted⟩ := he.admitted d List.mem_cons_self
  let s := (l.selections d).state
  have hcounted : s < l.stateCount := hb.counted d hcount
  obtain ⟨hnew, hwaiting⟩ := hb.not_queued (.inr hadmitted)
  have hsettling : ∀ f ∈ settling, f.selection ≠ d := by
    rintro f hf rfl
    obtain ⟨_, hqueued, _⟩ := he.settles f hf
    rw [hqueued] at hadmitted
    cases hadmitted
  have hqueued : Balanced (l.setCompletion d .queued) :=
    hb.setCompletion hnew (by rintro ⟨⟩) hwaiting
  have hengaged : Engaged (l.setCompletion d .queued) admitting settling [] :=
    he.admitted_rest .queued
  let state : P2CEndpointState ε :=
    { l.states s with completionQueue := (l.states s).completionQueue ++ [⟨d, failure⟩] }
  have hmap : state.completionQueue.map QueuedCompletion.selection = l.waiting s ++ [d] := by
    rw [List.map_append, List.map_singleton]
    rfl
  have hwaits : ∀ d' ∈ state.completionQueue.map QueuedCompletion.selection,
      d' < l.selectionCount ∧ (l.setCompletion d .queued).selections d' = ⟨s, .queued⟩ := by
    intro d' hd'
    rw [hmap, List.mem_append, List.mem_singleton] at hd'
    obtain hd' | rfl := hd'
    · exact hqueued.waits s d' hd'
    · refine ⟨hcount, ?_⟩
      rw [selections_setCompletion, if_pos rfl]
  have honce : (state.completionQueue.map QueuedCompletion.selection).Nodup := by
    rw [hmap]
    exact (hb.waitsOnce s).append (List.nodup_singleton d)
      (List.disjoint_singleton.mpr (hwaiting s))
  have hnot : ∀ f ∈ settling, f.state = s →
      f.selection ∉ state.completionQueue.map QueuedCompletion.selection := by
    intro f hf heq hmem
    rw [hmap, List.mem_append, List.mem_singleton] at hmem
    obtain hmem | hmem := hmem
    · exact (he.settles f hf).2.2 (heq ▸ hmem)
    · exact hsettling f hf hmem
  have hchanges : Changes [d] l (l.setCompletion d .queued) := changes_setCompletion d .queued
  rw [queueCompletion]
  split
  · rename_i hactive
    use [d]
    constructor
    case balanced => exact hqueued.setState ⟨rfl, rfl, rfl⟩ hcounted hwaits honce
    case engaged =>
      apply Engaged.setState hengaged hnot hengaged.runsOnce
      · exact hengaged.active s
      · exact fun _ _ => Iff.rfl
    case changes => exact hchanges.trans (changes_setState ⟨rfl, rfl, rfl⟩)
  · rename_i hinactive
    have hidle : s ∉ settling.map Settling.state ++ [] := fun hmem =>
      hinactive ((hengaged.active s).mpr hmem)
    rw [List.append_nil] at hidle
    let running : P2CEndpointState ε := { state with completionActive := true }
    have hrunning : Running ((l.setCompletion d .queued).setState s running) admitting settling
        s := by
      constructor
      case balanced => exact hqueued.setState ⟨rfl, rfl, rfl⟩ hcounted hwaits honce
      case engaged =>
        apply Engaged.setState hengaged
        · exact hnot
        · have hruns := hengaged.runsOnce
          rw [List.append_nil] at hruns
          exact hruns.append (List.nodup_singleton s) (List.disjoint_singleton.mpr hidle)
        · exact iff_of_true rfl (List.mem_append_right _ (List.mem_singleton_self s))
        · intro s' hs'
          rw [List.mem_singleton]
          exact iff_of_false hs' List.not_mem_nil
      case counted => exact hcounted
    have hqueue : (((l.setCompletion d .queued).setState s running).states s).completionQueue =
        state.completionQueue := by
      rw [states_setState, if_pos rfl]
    have hran := ran_runSerializedCompletion urls b hrunning [] hqueue
    have hbegun : Changes [d] l ((l.setCompletion d .queued).setState s running) :=
      hchanges.trans (changes_setState ⟨rfl, rfl, rfl⟩)
    exact ⟨_, hran.balanced, hran.engaged, hbegun.trans hran.changes⟩

end

end Registry.P2C
