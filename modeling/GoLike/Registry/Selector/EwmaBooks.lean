import GoLike.Registry.Selector.Ewma
import Mathlib.Tactic.Positivity

/-!
# The books of selection by smoothed latency

The counter of an endpoint state agrees with the selections that are not completed, and its ring
has the observations of those among them that are tracked. The smoothed values stay in their
bounds, so that every load is positive.
-/

open Store

namespace Registry.EWMA

open P2C (SourceResult QueuedCompletion Completion)

variable {urls : UrlParser} {ε : Type}

/-! ### Numbers -/

theorem trunc_of_nonneg {q : ℚ} (h : 0 ≤ q) :
  trunc q = ⌊q⌋
  := if_pos h

/-- The integer part of a square root is the largest number whose square is not above. -/
theorem le_truncSqrt {q : ℚ} (hq : 0 ≤ q) (n : ℕ) :
  n ≤ truncSqrt q ↔ (n : ℚ) * n ≤ q
  := by
  have hfloor : ((⌊q⌋.toNat : ℕ) : ℤ) = ⌊q⌋ := Int.toNat_of_nonneg (Int.floor_nonneg.2 hq)
  rw [truncSqrt, Nat.le_sqrt]
  constructor
  · intro h
    have hle : ((n * n : ℕ) : ℤ) ≤ ⌊q⌋ := by
      rw [← hfloor]
      exact_mod_cast h
    have hcast := Int.le_floor.1 hle
    push_cast at hcast
    exact hcast
  · intro h
    have hle : ((n * n : ℕ) : ℤ) ≤ ⌊q⌋ := by
      rw [Int.le_floor]
      push_cast
      exact h
    rw [← hfloor] at hle
    exact_mod_cast hle

/-- A mean of a value in bounds and one of the bounds is in the bounds. -/
theorem trunc_mix {factor : ℚ} (hzero : 0 ≤ factor) (hone : factor ≤ 1) {value health scale : ℤ}
    (hvalue : 0 ≤ value ∧ value ≤ scale) (hhealth : 0 ≤ health ∧ health ≤ scale) :
  0 ≤ trunc (value * factor + health * (1 - factor)) ∧
    trunc (value * factor + health * (1 - factor)) ≤ scale
  := by
  obtain ⟨hvalue₀, hvalue₁⟩ := hvalue
  obtain ⟨hhealth₀, hhealth₁⟩ := hhealth
  have hrest : 0 ≤ 1 - factor := sub_nonneg.2 hone
  have hv₀ : (0 : ℚ) ≤ value := by exact_mod_cast hvalue₀
  have hv₁ : (value : ℚ) ≤ scale := by exact_mod_cast hvalue₁
  have hh₀ : (0 : ℚ) ≤ health := by exact_mod_cast hhealth₀
  have hh₁ : (health : ℚ) ≤ scale := by exact_mod_cast hhealth₁
  have hnonneg : 0 ≤ value * factor + health * (1 - factor) := by positivity
  have hle : value * factor + health * (1 - factor) ≤ (scale : ℚ) := by
    calc value * factor + health * (1 - factor)
        ≤ scale * factor + scale * (1 - factor) := by gcongr
      _ = scale := by ring
  rw [trunc_of_nonneg hnonneg]
  constructor
  · exact Int.floor_nonneg.2 hnonneg
  · exact Int.floor_le_iff.2 (hle.trans_lt (lt_add_one _))

/-! ### Loads -/

/-- The smoothed values are in their bounds. -/
structure EWMAEndpointState.Bounded (state : EWMAEndpointState ε) : Prop where
  success : 0 ≤ state.success ∧ state.success ≤ EWMAHealthScale
  latency : 0 ≤ state.latencyMs

theorem EWMAEndpointState.bounded_new :
  (newEWMAEndpointState : EWMAEndpointState ε).Bounded
  := by
  have hscale : 0 ≤ EWMAHealthScale ∧ EWMAHealthScale ≤ EWMAHealthScale := by decide
  exact ⟨hscale, le_refl 0⟩

/-- A load is positive, whatever the clock shows. -/
theorem ewmaLoad_pos {state : EWMAEndpointState ε} (hbounded : state.Bounded)
    (hinFlight : 0 < state.inFlight) (now : ℚ) :
  0 < ewmaLoad state now
  := by
  have hcount : (0 : ℚ) < state.inFlight := by exact_mod_cast hinFlight
  unfold ewmaLoad
  dsimp only
  split
  case isTrue =>
    apply mul_pos _ hcount
    rw [EWMANoDataPenaltyNs]
    norm_num
  case isFalse =>
    apply mul_pos _ hcount
    have hlatency : 0 ≤ max state.latencyMs (predictedEWMALatency state now) :=
      le_max_of_le_left hbounded.latency
    have hoffset : (1 : ℚ) ≤ max state.latencyMs (predictedEWMALatency state now) * 1000000 +
        EWMALatencyOffsetNs := by
      rw [EWMALatencyOffsetNs]
      linarith
    have hroot : 1 ≤ truncSqrt (max state.latencyMs (predictedEWMALatency state now) * 1000000 +
        EWMALatencyOffsetNs) := by
      rw [le_truncSqrt (by linarith)]
      simpa using hoffset
    exact_mod_cast hroot

theorem decayFactor_mem (decay : Decay) (state : EWMAEndpointState ε) (completedAt : ℚ) :
  0 ≤ decayFactor decay state completedAt ∧ decayFactor decay state completedAt ≤ 1
  := by
  rw [decayFactor]
  split
  · exact ⟨le_refl 0, zero_le_one⟩
  · exact ⟨decay.nonneg _, decay.le_one _⟩

/-- A completion keeps the smoothed values in their bounds. -/
theorem EWMAEndpointState.Bounded.settled {state : EWMAEndpointState ε} (h : state.Bounded)
    (decay : Decay) (observation : EWMAObservation) (completedAt : ℚ) (failed : Bool) :
  (settled decay state observation completedAt failed).Bounded
  := by
  obtain ⟨hzero, hone⟩ := decayFactor_mem decay state completedAt
  have hrest := sub_nonneg.2 hone
  constructor
  case success =>
    rw [EWMA.settled]
    apply trunc_mix hzero hone h.success
    cases failed with
    | true | false => decide
  case latency =>
    rw [EWMA.settled]
    have hlatency := h.latency
    have helapsed : 0 ≤ max (completedAt - observation.startedAt) 0 := le_max_right _ _
    dsimp only
    positivity

/-! ### Balanced ledgers -/

namespace Ledger

/-- The selections of an endpoint state that are not completed. -/
def pending (l : Ledger ε) (s : ℕ) : Finset ℕ :=
  {d ∈ Finset.range l.selectionCount |
    (l.selections d).state = s ∧ (l.selections d).completion ≠ .completed}

theorem mem_pending {l : Ledger ε} {s d : ℕ} :
  d ∈ l.pending s ↔ d < l.selectionCount ∧
    (l.selections d).state = s ∧ (l.selections d).completion ≠ .completed
  := by
  rw [pending, Finset.mem_filter, Finset.mem_range]

/-- A slot was given to the selection of an observation, which is tracked and not completed. -/
structure Given (l : Ledger ε) (s : ℕ) (slot : Fin EWMAObservationSlots) (o : EWMAObservation) :
    Prop where
  pending : o.selection ∈ l.pending s
  observation : (l.selections o.selection).observation = o
  tracked : o.tracked = true
  slot : o.slot = slot

/-- The counters and the rings agree with the selections. -/
structure Balanced (l : Ledger ε) : Prop where
  inFlight : ∀ s, (l.states s).inFlight = 1 + (l.pending s).card
  ring : ∀ s slot o, (l.states s).observations slot = some o ↔ l.Given s slot o
  bounded : ∀ s, (l.states s).Bounded
  queued : ∀ s, ∀ q ∈ (l.states s).completionQueue, q.selection < l.selectionCount ∧
    (l.selections q.selection).state = s ∧ (l.selections q.selection).completion = .queued
  queuedOnce : ∀ s, ((l.states s).completionQueue.map QueuedCompletion.selection).Nodup
  issued : ∀ d < l.selectionCount, (l.selections d).state < l.stateCount ∧
    (l.selections d).observation.selection = d
  unused : ∀ s, l.stateCount ≤ s → l.states s = newEWMAEndpointState

variable {l : Ledger ε} {s d : ℕ}

theorem balanced_new :
  (newWorld : World ε).ledger.Balanced
  := by
  have hempty : ∀ s d, d ∉ (newWorld : World ε).ledger.pending s := by
    intro s d hd
    exact absurd (mem_pending.1 hd).1 (Nat.not_lt_zero d)
  constructor
  case inFlight =>
    intro s
    rw [Finset.eq_empty_of_forall_notMem (hempty s)]
    rfl
  case ring =>
    intro s slot o
    constructor
    · rintro ⟨⟩
    · exact fun h => absurd h.pending (hempty s o.selection)
  case bounded => exact fun s => EWMAEndpointState.bounded_new
  case queued => exact fun s q hq => absurd hq List.not_mem_nil
  case queuedOnce => exact fun s => .nil
  case issued => exact fun d hd => absurd hd (Nat.not_lt_zero d)
  case unused => exact fun s _ => rfl

/-! ### Steps of the ledger -/

theorem states_setState (l : Ledger ε) (s : ℕ) (state : EWMAEndpointState ε) (s' : ℕ) :
  (l.setState s state).states s' = if s' = s then state else l.states s'
  := Function.update_apply l.states s state s'

theorem selections_setCompletion (l : Ledger ε) (d : ℕ) (completion : Completion) (d' : ℕ) :
  (l.setCompletion d completion).selections d' =
    if d' = d then { l.selections d with completion := completion } else l.selections d'
  := Function.update_apply l.selections d _ d'

/-- Only how far a callback has got changes. -/
theorem sameSelection_setCompletion (l : Ledger ε) (d : ℕ) (completion : Completion) (d' : ℕ) :
  ((l.setCompletion d completion).selections d').state = (l.selections d').state ∧
    ((l.setCompletion d completion).selections d').observation = (l.selections d').observation
  := by
  rw [selections_setCompletion]
  split
  · rename_i heq
    rw [heq]
    exact ⟨rfl, rfl⟩
  · exact ⟨rfl, rfl⟩

theorem completion_setCompletion_of_ne {d' : ℕ} (hne : d' ≠ d) (completion : Completion) :
  ((l.setCompletion d completion).selections d').completion = (l.selections d').completion
  := by
  rw [selections_setCompletion, if_neg hne]

theorem completion_setCompletion_self (completion : Completion) :
  ((l.setCompletion d completion).selections d).completion = completion
  := by
  rw [selections_setCompletion, if_pos rfl]

/-- The selections that are not completed, after one callback has got further. -/
theorem mem_pending_setCompletion {completion : Completion} {d' : ℕ}
    (hopen : (l.selections d).completion ≠ .completed) :
  d' ∈ (l.setCompletion d completion).pending s ↔
    d' ∈ l.pending s ∧ ¬ (d' = d ∧ completion = .completed)
  := by
  rw [mem_pending, mem_pending, (sameSelection_setCompletion l d completion d').1]
  by_cases hne : d' = d
  · rw [hne, completion_setCompletion_self]
    simp [hopen, setCompletion, and_assoc]
  · rw [completion_setCompletion_of_ne hne]
    simp [hne, setCompletion]

/-- One endpoint state changes, and one callback that counts in it gets further. -/
theorem Balanced.replace (h : l.Balanced) {state : EWMAEndpointState ε} {completion : Completion}
    (hd : d < l.selectionCount) (hstate : (l.selections d).state = s)
    (hopen : (l.selections d).completion ≠ .completed)
    (hinFlight : state.inFlight =
      (l.states s).inFlight - if completion = .completed then 1 else 0)
    (hring : ∀ slot, state.observations slot =
      if completion = .completed ∧
          (l.states s).observations slot = some (l.selections d).observation then none
      else (l.states s).observations slot)
    (hbounded : state.Bounded)
    (hqueue : ∀ q ∈ state.completionQueue, (q.selection = d ∧ completion = .queued) ∨
      (q.selection ≠ d ∧ q ∈ (l.states s).completionQueue))
    (honce : (state.completionQueue.map QueuedCompletion.selection).Nodup) :
  ((l.setState s state).setCompletion d completion).Balanced
  := by
  have hpending : ∀ s' d', d' ∈ ((l.setState s state).setCompletion d completion).pending s' ↔
      d' ∈ l.pending s' ∧ ¬ (d' = d ∧ completion = .completed) :=
    fun s' d' => mem_pending_setCompletion (l := l.setState s state) hopen
  have hmem : d ∈ l.pending s := mem_pending.2 ⟨hd, hstate, hopen⟩
  have hstates : ∀ s', ((l.setState s state).setCompletion d completion).states s' =
      if s' = s then state else l.states s' := states_setState l s state
  have hsame : ∀ d', (((l.setState s state).setCompletion d completion).selections d').state =
      (l.selections d').state ∧
      (((l.setState s state).setCompletion d completion).selections d').observation =
        (l.selections d').observation :=
    sameSelection_setCompletion (l.setState s state) d completion
  constructor
  case inFlight =>
    intro s'
    rw [hstates]
    by_cases hcompleted : completion = .completed
    · have herase : ((l.setState s state).setCompletion d completion).pending s' =
          (l.pending s').erase d := by
        ext d'
        rw [hpending, Finset.mem_erase]
        simp [hcompleted, and_comm]
      rw [herase]
      split
      · rename_i hs
        rw [hs, hinFlight, h.inFlight, if_pos hcompleted, Finset.card_erase_of_mem hmem]
        have := Finset.card_pos.2 ⟨d, hmem⟩
        omega
      · rename_i hs
        rw [h.inFlight, Finset.erase_eq_of_notMem]
        intro hd'
        exact hs ((mem_pending.1 hd').2.1.symm.trans hstate)
    · have hkeep : ((l.setState s state).setCompletion d completion).pending s' =
          l.pending s' := by
        ext d'
        rw [hpending]
        simp [hcompleted]
      rw [hkeep]
      split
      · rename_i hs
        rw [hs, hinFlight, if_neg hcompleted, h.inFlight, sub_zero]
      · exact h.inFlight s'
  case ring =>
    intro s' slot o
    have hgiven : ((l.setState s state).setCompletion d completion).Given s' slot o ↔
        l.Given s' slot o ∧ ¬ (o.selection = d ∧ completion = .completed) := by
      constructor
      · rintro ⟨hp, ho, ht, hslot⟩
        obtain ⟨hp, hnot⟩ := (hpending s' o.selection).1 hp
        exact ⟨⟨hp, (hsame o.selection).2.symm.trans ho, ht, hslot⟩, hnot⟩
      · rintro ⟨⟨hp, ho, ht, hslot⟩, hnot⟩
        exact ⟨(hpending s' o.selection).2 ⟨hp, hnot⟩, (hsame o.selection).2.trans ho, ht, hslot⟩
    rw [hgiven, hstates]
    split
    case isTrue hs =>
      subst hs
      rw [hring]
      split
      case isTrue hfreed =>
        obtain ⟨hcompleted, hslot⟩ := hfreed
        constructor
        · rintro ⟨⟩
        · rintro ⟨hgiven', hnot⟩
          have ho := (h.ring s' slot o).2 hgiven'
          rw [hslot] at ho
          have hselection := congrArg EWMAObservation.selection (Option.some.inj ho)
          rw [(h.issued d hd).2] at hselection
          exact absurd ⟨hselection.symm, hcompleted⟩ hnot
      case isFalse hkept =>
        rw [h.ring]
        constructor
        · intro hgiven'
          refine ⟨hgiven', ?_⟩
          rintro ⟨rfl, hcompleted⟩
          apply hkept
          rw [(h.ring s' slot o).2 hgiven', hgiven'.observation]
          exact ⟨hcompleted, rfl⟩
        · exact And.left
    case isFalse hs =>
      rw [h.ring]
      constructor
      · intro hgiven'
        refine ⟨hgiven', ?_⟩
        rintro ⟨rfl, -⟩
        exact hs ((mem_pending.1 hgiven'.pending).2.1.symm.trans hstate)
      · exact And.left
  case bounded =>
    intro s'
    rw [hstates]
    split
    · exact hbounded
    · exact h.bounded s'
  case queued =>
    intro s' q hq
    have hother : q.selection ≠ d → q ∈ (l.states s').completionQueue →
        q.selection < l.selectionCount ∧ (l.selections q.selection).state = s' ∧
        (((l.setState s state).setCompletion d completion).selections q.selection).completion =
          .queued := by
      intro hne hold
      obtain ⟨hcount, hin, hqueued⟩ := h.queued s' q hold
      exact ⟨hcount, hin, (completion_setCompletion_of_ne hne completion).trans hqueued⟩
    rw [(hsame q.selection).1]
    rw [hstates] at hq
    split at hq
    case isTrue hs =>
      subst hs
      obtain ⟨hq', hqueued⟩ | ⟨hne, hold⟩ := hqueue q hq
      · rw [hq']
        exact ⟨hd, hstate, (completion_setCompletion_self completion).trans hqueued⟩
      · exact hother hne hold
    case isFalse hs =>
      apply hother _ hq
      intro hq'
      exact hs ((h.queued s' q hq).2.1.symm.trans (hq' ▸ hstate))
  case queuedOnce =>
    intro s'
    rw [hstates]
    split
    · exact honce
    · exact h.queuedOnce s'
  case issued =>
    intro d' hd'
    rw [(hsame d').1, (hsame d').2]
    exact h.issued d' hd'
  case unused =>
    intro s' hs'
    rw [hstates, if_neg]
    · exact h.unused s' hs'
    · rintro rfl
      have := (h.issued d hd).1
      rw [hstate] at this
      exact absurd hs' (Nat.not_le.2 this)

/-- A callback gets further outside of its queue. -/
theorem Balanced.setCompletion (h : l.Balanced) {completion : Completion}
    (hd : d < l.selectionCount) (hopen : (l.selections d).completion ≠ .completed)
    (hqueued : (l.selections d).completion ≠ .queued) (hcompleted : completion ≠ .completed) :
  (l.setCompletion d completion).Balanced
  := by
  have hself : l.setState (l.selections d).state (l.states (l.selections d).state) = l := by
    rw [setState, Function.update_eq_self]
  rw [← hself]
  apply h.replace hd rfl hopen
  case hinFlight => rw [if_neg hcompleted, sub_zero]
  case hring => exact fun slot => (if_neg fun hfreed => hcompleted hfreed.1).symm
  case hbounded => exact h.bounded _
  case hqueue =>
    intro q hq
    refine .inr ⟨?_, hq⟩
    rintro rfl
    exact hqueued (h.queued _ q hq).2.2
  case honce => exact h.queuedOnce _

/-- An endpoint state is created. -/
theorem Balanced.create (h : l.Balanced) :
  l.create.Balanced ∧ l.create.states = l.states
  := by
  have hstates : l.create.states = l.states := by
    rw [Ledger.create, setState]
    dsimp only
    rw [← h.unused l.stateCount (le_refl _), Function.update_eq_self]
  refine ⟨?_, hstates⟩
  constructor
  case inFlight =>
    rw [hstates]
    exact h.inFlight
  case ring =>
    rw [hstates]
    exact fun s slot o => (h.ring s slot o).trans ⟨fun g => ⟨g.1, g.2, g.3, g.4⟩,
      fun g => ⟨g.1, g.2, g.3, g.4⟩⟩
  case bounded =>
    rw [hstates]
    exact h.bounded
  case queued =>
    rw [hstates]
    exact h.queued
  case queuedOnce =>
    rw [hstates]
    exact h.queuedOnce
  case issued => exact fun d hd => ⟨(h.issued d hd).1.trans (Nat.lt_succ_self _), (h.issued d hd).2⟩
  case unused =>
    rw [hstates]
    exact fun s hs => h.unused s ((Nat.le_succ _).trans hs)

/-! ### Observations -/

theorem selections_start (l : Ledger ε) (s : ℕ) (now : ℚ) {d : ℕ} (hd : d ≠ l.selectionCount) :
  (startEWMAObservation l s now).selections d = l.selections d
  := Function.update_of_ne hd _ _

/-- The selection that an observation begins. -/
theorem selection_start (l : Ledger ε) (s : ℕ) (now : ℚ) :
  (startEWMAObservation l s now).selections l.selectionCount =
    ⟨s, newObservation (l.states s) l.selectionCount now, .opened⟩
  := Function.update_self l.selectionCount _ l.selections

theorem states_start_self (l : Ledger ε) (s : ℕ) (now : ℚ) :
  (startEWMAObservation l s now).states s =
    started (l.states s) (newObservation (l.states s) l.selectionCount now)
  := Function.update_self s _ l.states

theorem states_start_of_ne (l : Ledger ε) {s s' : ℕ} (hs : s' ≠ s) (now : ℚ) :
  (startEWMAObservation l s now).states s' = l.states s'
  := Function.update_of_ne hs _ _

theorem mem_pending_start (l : Ledger ε) (s s' d : ℕ) (now : ℚ) :
  d ∈ (startEWMAObservation l s now).pending s' ↔
    (d = l.selectionCount ∧ s' = s) ∨ d ∈ l.pending s'
  := by
  have hcount : (startEWMAObservation l s now).selectionCount = l.selectionCount + 1 := rfl
  rw [mem_pending, mem_pending, hcount]
  by_cases hd : d = l.selectionCount
  · rw [hd, selection_start]
    simp [eq_comm]
  · rw [selections_start l s now hd]
    have hlt : d < l.selectionCount + 1 ↔ d < l.selectionCount := by omega
    simp [hd, hlt]

/-- An observation takes the next slot of the ring, when nothing has it. -/
theorem observations_started (state : EWMAEndpointState ε) (d : ℕ) (now : ℚ)
    (slot : Fin EWMAObservationSlots) (o : EWMAObservation) :
  (started state (newObservation state d now)).observations slot = some o ↔
    state.observations slot = some o ∨
      (newObservation state d now = o ∧ o.tracked = true ∧ o.slot = slot)
  := by
  rw [started]
  dsimp only
  cases hnext : state.observations state.nextSlot with
  | none =>
      have htracked : (newObservation state d now).tracked = true := by
        rw [newObservation, hnext]
        rfl
      rw [if_pos htracked]
      by_cases hslot : slot = state.nextSlot
      · rw [hslot, hnext]
        have hself : Function.update state.observations (newObservation state d now).slot
            (some (newObservation state d now)) state.nextSlot =
            some (newObservation state d now) := Function.update_self _ _ _
        rw [hself]
        constructor
        · rintro ⟨⟩
          exact .inr ⟨rfl, htracked, rfl⟩
        · rintro (⟨⟨⟩⟩ | ⟨rfl, -, -⟩)
          rfl
      · have hother : Function.update state.observations (newObservation state d now).slot
            (some (newObservation state d now)) slot = state.observations slot :=
          Function.update_of_ne hslot _ _
        rw [hother]
        constructor
        · exact .inl
        · rintro (ho | ⟨rfl, -, rfl⟩)
          · exact ho
          · exact absurd rfl hslot
  | some first =>
      have htracked : (newObservation state d now).tracked = false := by
        rw [newObservation, hnext]
        rfl
      rw [htracked, if_neg Bool.false_ne_true]
      constructor
      · exact .inl
      · rintro (ho | ⟨rfl, htrue, -⟩)
        · exact ho
        · rw [htracked] at htrue
          cases htrue

/-- The queue of an endpoint is not changed by an observation. -/
theorem queue_start (l : Ledger ε) (s s' : ℕ) (now : ℚ) :
  ((startEWMAObservation l s now).states s').completionQueue = (l.states s').completionQueue
  := by
  by_cases hs' : s' = s
  · rw [hs', states_start_self]
    rfl
  · rw [states_start_of_ne l hs']

/-- A selection is issued. -/
theorem Balanced.start (h : l.Balanced) (hs : s < l.stateCount) (now : ℚ) :
  (startEWMAObservation l s now).Balanced
  := by
  constructor
  case inFlight =>
    intro s'
    by_cases hs' : s' = s
    · subst hs'
      have hfresh : l.selectionCount ∉ l.pending s' :=
        fun hmem => lt_irrefl _ (mem_pending.1 hmem).1
      have hinsert : (startEWMAObservation l s' now).pending s' =
          insert l.selectionCount (l.pending s') := by
        ext d
        rw [mem_pending_start, Finset.mem_insert]
        simp
      rw [hinsert, states_start_self, Finset.card_insert_of_notMem hfresh, started, h.inFlight]
      push_cast
      ring
    · have hkeep : (startEWMAObservation l s now).pending s' = l.pending s' := by
        ext d
        rw [mem_pending_start]
        simp [hs']
      rw [hkeep, states_start_of_ne l hs', h.inFlight]
  case ring =>
    intro s' slot o
    have hold : o.selection ∈ l.pending s' →
        ((startEWMAObservation l s now).selections o.selection).observation =
          (l.selections o.selection).observation := by
      intro hmem
      rw [selections_start l s now (ne_of_lt (mem_pending.1 hmem).1)]
    have hgiven : (startEWMAObservation l s now).Given s' slot o ↔ l.Given s' slot o ∨
        (s' = s ∧ newObservation (l.states s) l.selectionCount now = o ∧
          o.tracked = true ∧ o.slot = slot) := by
      constructor
      · rintro ⟨hp, ho, ht, hslot⟩
        obtain ⟨hd, hs'⟩ | hp := (mem_pending_start l s s' o.selection now).1 hp
        · rw [hd, selection_start] at ho
          exact .inr ⟨hs', ho, ht, hslot⟩
        · exact .inl ⟨hp, (hold hp).symm.trans ho, ht, hslot⟩
      · rintro (⟨hp, ho, ht, hslot⟩ | ⟨hs', ho, ht, hslot⟩)
        · have hp' := (mem_pending_start l s s' o.selection now).2 (.inr hp)
          exact ⟨hp', (hold hp).trans ho, ht, hslot⟩
        · have hd : o.selection = l.selectionCount := by
            rw [← ho]
            rfl
          refine ⟨(mem_pending_start l s s' o.selection now).2 (.inl ⟨hd, hs'⟩), ?_, ht, hslot⟩
          rw [hd, selection_start]
          exact ho
    rw [hgiven, ← h.ring]
    by_cases hs' : s' = s
    · subst hs'
      rw [states_start_self, observations_started]
      simp
    · rw [states_start_of_ne l hs']
      simp [hs']
  case bounded =>
    intro s'
    by_cases hs' : s' = s
    · rw [hs', states_start_self]
      exact ⟨(h.bounded s).success, (h.bounded s).latency⟩
    · rw [states_start_of_ne l hs']
      exact h.bounded s'
  case queued =>
    intro s' q hq
    rw [queue_start] at hq
    obtain ⟨hcount, hqueued⟩ := h.queued s' q hq
    rw [selections_start l s now (ne_of_lt hcount)]
    exact ⟨hcount.trans (Nat.lt_succ_self _), hqueued⟩
  case queuedOnce =>
    intro s'
    rw [queue_start]
    exact h.queuedOnce s'
  case issued =>
    intro d hd
    by_cases hd' : d = l.selectionCount
    · rw [hd', selection_start]
      exact ⟨hs, rfl⟩
    · rw [selections_start l s now hd']
      exact h.issued d (Nat.lt_of_le_of_ne (Nat.le_of_lt_succ hd) hd')
  case unused =>
    intro s' hs'
    rw [states_start_of_ne l (ne_of_gt (Nat.lt_of_lt_of_le hs hs'))]
    exact h.unused s' hs'

end Ledger

end Registry.EWMA
