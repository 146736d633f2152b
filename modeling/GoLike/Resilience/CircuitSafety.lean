import GoLike.Resilience.Circuit
import Mathlib.Tactic.Linarith

/-!
# The circuit breaker is safe

Whatever the order in which calls are admitted and end, at most one probe is outstanding, every
admitted call is recorded exactly once, late outcomes change nothing, and after an opening
calls are admitted only when the reset timeout has passed.
-/

open Relation

namespace Resilience.CircuitBreaker

variable {b : CircuitBreaker} {ε : Type}

/-! ### Records -/

section Records

variable {c : Circuit}

/-- An outcome of an earlier generation changes nothing. -/
theorem record_stale {t₀ : CircuitTicket} (hstale : t₀.generation ≠ c.generation) (now : ℚ)
    (r : Record) :
  b.record t₀ now r c = c
  := by
  cases r with
  | success | failure => exact if_pos hstale
  | neutral =>
      apply if_neg
      rintro ⟨heq, -⟩
      exact hstale heq

/-- The probe ends: the circuit closes, opens, or waits for another probe. -/
theorem record_probe {t₀ : CircuitTicket} (hcurrent : t₀.generation = c.generation)
    (hhalf : t₀.halfOpen = true) (now : ℚ) (r : Record) :
  b.record t₀ now r c = ⟨.closed, 0, c.openedAt, false, c.generation + 1⟩ ∨
    b.record t₀ now r c = openCircuit now c ∨
    b.record t₀ now r c = { c with probeActive := false }
  := by
  cases r with
  | success =>
      left
      simp only [record, recordSuccess, hcurrent, hhalf, ne_eq, not_true_eq_false, if_false, if_true]
  | failure =>
      right
      left
      simp only [record, recordFailure, hcurrent, hhalf, ne_eq, not_true_eq_false, if_false, if_true]
  | neutral =>
      right
      right
      simp only [record, recordNeutral, hcurrent, hhalf, and_self, if_true]

/-- A call of a closed circuit ends: the circuit opens, or goes on. -/
theorem record_closed {t₀ : CircuitTicket} (hcurrent : t₀.generation = c.generation)
    (hclosed : t₀.halfOpen = false) (now : ℚ) (r : Record) :
  (∃ failures, b.record t₀ now r c = openCircuit now { c with consecutiveFailures := failures }) ∨
    ∃ failures, b.record t₀ now r c = { c with consecutiveFailures := failures } ∧
      (c.consecutiveFailures < b.failureThreshold → failures < b.failureThreshold)
  := by
  cases r with
  | success =>
      right
      use 0
      simp only [record, recordSuccess, hcurrent, hclosed, ne_eq, not_true_eq_false, if_false,
        Bool.false_eq_true]
      exact ⟨trivial, fun _ => b.failureThreshold_pos⟩
  | failure =>
      simp only [record, recordFailure, hcurrent, hclosed, ne_eq, not_true_eq_false, if_false,
        Bool.false_eq_true]
      split
      · left
        use c.consecutiveFailures + 1
      · rename_i hbelow
        right
        use c.consecutiveFailures + 1
        exact ⟨rfl, fun _ => Nat.lt_of_not_le hbelow⟩
  | neutral =>
      right
      use c.consecutiveFailures
      simp only [record, recordNeutral, hclosed, Bool.false_eq_true, and_false, if_false]
      exact ⟨trivial, id⟩

end Records

/-! ### Tickets -/

/-- The ticket of a call that has been admitted and has not ended. -/
def Phase.ticket : Phase ε → Option CircuitTicket
  | .operating ticket => some ticket
  | .classifying ticket _ => some ticket
  | .returned => none
  | .threw _ => none

/-- The ticket that a call of the system holds. -/
def System.ticket (s : System ε) (a : ℕ) : Option CircuitTicket := (s.phase a).bind Phase.ticket

/-- The tickets that calls hold fit a circuit. -/
structure Tickets (c : Circuit) (tickets : ℕ → Option CircuitTicket) : Prop where
  past : ∀ a t, tickets a = some t → t.generation ≤ c.generation
  /-- A ticket of the present generation. -/
  current : ∀ a t, tickets a = some t → t.generation = c.generation →
    c.state = if t.halfOpen then .halfOpen else .closed
  probe : ∀ a t, tickets a = some t → t.halfOpen = true →
    t.generation = c.generation ∧ c.probeActive = true
  unique : ∀ a a' t t', tickets a = some t → tickets a' = some t' → t.halfOpen = true →
    t'.halfOpen = true → a = a'
  released : c.probeActive = true → ∃ a t, tickets a = some t ∧ t.halfOpen = true

namespace Tickets

variable {c : Circuit} {tickets : ℕ → Option CircuitTicket}

theorem refresh (h : Tickets c tickets) (now : ℚ) :
  Tickets (b.refresh now c) tickets
  := by
  rw [CircuitBreaker.refresh]
  split
  · exact h
  · rename_i hopen
    push Not at hopen
    have hold : ∀ a t, tickets a = some t → t.generation < c.generation := by
      intro a t ht
      apply lt_of_le_of_ne (h.past a t ht)
      intro heq
      have hstate := h.current a t ht heq
      rw [hopen.1] at hstate
      split at hstate <;> cases hstate
    have hnone : ∀ a t, tickets a = some t → t.halfOpen ≠ true := by
      intro a t ht hhalf
      exact absurd (h.probe a t ht hhalf).1 (hold a t ht).ne
    constructor
    case past => exact fun a t ht => (hold a t ht).le.trans (Nat.le_succ _)
    case current => exact fun a t ht heq => absurd heq ((hold a t ht).trans (Nat.lt_succ_self _)).ne
    case probe => exact fun a t ht hhalf => absurd hhalf (hnone a t ht)
    case unique => exact fun a a' t t' ht _ hhalf => absurd hhalf (hnone a t ht)
    case released => exact fun hprobe => absurd hprobe Bool.false_ne_true

/-- A call is admitted with a ticket of the present generation. -/
theorem admitted (h : Tickets c tickets) {a₀ : ℕ} (hnew : tickets a₀ = none) {halfOpen : Bool}
    (hstate : c.state = if halfOpen then .halfOpen else .closed)
    (hprobe : c.probeActive = false) :
  Tickets { c with probeActive := halfOpen }
    (Function.update tickets a₀ (some ⟨c.generation, halfOpen⟩))
  := by
  have hnone : ∀ a t, tickets a = some t → t.halfOpen ≠ true := by
    intro a t ht hhalf
    exact absurd (h.probe a t ht hhalf).2 (by simp [hprobe])
  have hcases : ∀ a t, Function.update tickets a₀ (some ⟨c.generation, halfOpen⟩) a = some t →
      a = a₀ ∧ t = ⟨c.generation, halfOpen⟩ ∨ tickets a = some t := by
    intro a t ht
    by_cases ha : a = a₀
    · subst ha
      rw [Function.update_self, Option.some.injEq] at ht
      exact .inl ⟨rfl, ht.symm⟩
    · rw [Function.update_of_ne ha] at ht
      exact .inr ht
  constructor
  case past =>
    intro a t ht
    obtain ⟨-, rfl⟩ | ht := hcases a t ht
    · exact le_rfl
    · exact h.past a t ht
  case current =>
    intro a t ht heq
    obtain ⟨-, rfl⟩ | ht := hcases a t ht
    · exact hstate
    · exact h.current a t ht heq
  case probe =>
    intro a t ht hhalf
    obtain ⟨-, rfl⟩ | ht := hcases a t ht
    · exact ⟨rfl, hhalf⟩
    · exact absurd hhalf (hnone a t ht)
  case unique =>
    intro a a' t t' ht ht' hhalf hhalf'
    obtain ⟨rfl, -⟩ | ht := hcases a t ht
    · obtain ⟨rfl, -⟩ | ht' := hcases a' t' ht'
      · rfl
      · exact absurd hhalf' (hnone a' t' ht')
    · exact absurd hhalf (hnone a t ht)
  case released =>
    intro hactive
    use a₀, ⟨c.generation, halfOpen⟩
    exact ⟨Function.update_self _ _ _, hactive⟩

theorem eq_of_update {a₀ a : ℕ} {t : CircuitTicket}
    (ht : Function.update tickets a₀ none a = some t) :
  a ≠ a₀ ∧ tickets a = some t
  := by
  by_cases ha : a = a₀
  · rw [ha, Function.update_self] at ht
    cases ht
  · rw [Function.update_of_ne ha] at ht
    exact ⟨ha, ht⟩

/-- A call that is not the probe ends, and the circuit goes on. -/
theorem drop (h : Tickets c tickets) {a₀ : ℕ}
    (hclosed : ∀ t, tickets a₀ = some t → t.halfOpen ≠ true) {c' : Circuit}
    (hstate : c'.state = c.state) (hprobe : c'.probeActive = c.probeActive)
    (hgeneration : c'.generation = c.generation) :
  Tickets c' (Function.update tickets a₀ none)
  := by
  constructor
  case past =>
    intro a t ht
    rw [hgeneration]
    exact h.past a t (eq_of_update ht).2
  case current =>
    intro a t ht heq
    rw [hstate]
    exact h.current a t (eq_of_update ht).2 (heq.trans hgeneration)
  case probe =>
    intro a t ht hhalf
    rw [hgeneration, hprobe]
    exact h.probe a t (eq_of_update ht).2 hhalf
  case unique =>
    intro a a' t t' ht ht' hhalf hhalf'
    exact h.unique a a' t t' (eq_of_update ht).2 (eq_of_update ht').2 hhalf hhalf'
  case released =>
    intro hactive
    obtain ⟨a, t, ht, hhalf⟩ := h.released (hprobe ▸ hactive)
    use a, t
    have hne : a ≠ a₀ := by
      rintro rfl
      exact hclosed t ht hhalf
    rw [Function.update_of_ne hne]
    exact ⟨ht, hhalf⟩

/-- A call ends, no probe is left, and the circuit has no probe. -/
theorem release (h : Tickets c tickets) {a₀ : ℕ}
    (hclosed : ∀ a t, a ≠ a₀ → tickets a = some t → t.halfOpen ≠ true) {c' : Circuit}
    (hprobe : c'.probeActive = false) (hgeneration : c.generation ≤ c'.generation)
    (hstate : c'.generation = c.generation → c'.state = c.state) :
  Tickets c' (Function.update tickets a₀ none)
  := by
  constructor
  case past => exact fun a t ht => (h.past a t (eq_of_update ht).2).trans hgeneration
  case current =>
    intro a t ht heq
    have hpast := h.past a t (eq_of_update ht).2
    have hsame : c'.generation = c.generation := le_antisymm (heq ▸ hpast) hgeneration
    rw [hstate hsame]
    exact h.current a t (eq_of_update ht).2 (heq.trans hsame)
  case probe =>
    intro a t ht hhalf
    exact absurd hhalf (hclosed a t (eq_of_update ht).1 (eq_of_update ht).2)
  case unique =>
    intro a a' t t' ht ht' hhalf hhalf'
    exact absurd hhalf (hclosed a t (eq_of_update ht).1 (eq_of_update ht).2)
  case released =>
    intro hactive
    rw [hprobe] at hactive
    cases hactive

/-- A call ends and is recorded. -/
theorem record (h : Tickets c tickets) {a₀ : ℕ} {t₀ : CircuitTicket} (h₀ : tickets a₀ = some t₀)
    (now : ℚ) (r : Record) :
  Tickets (b.record t₀ now r c) (Function.update tickets a₀ none)
  := by
  obtain hstale | hcurrent := ne_or_eq t₀.generation c.generation
  · rw [record_stale hstale]
    apply h.drop
    · intro t ht hhalf
      rw [h₀, Option.some.injEq] at ht
      subst ht
      exact hstale (h.probe a₀ t₀ h₀ hhalf).1
    · rfl
    · rfl
    · rfl
  · cases hhalf : t₀.halfOpen with
    | true =>
        have hothers : ∀ a t, a ≠ a₀ → tickets a = some t → t.halfOpen ≠ true := by
          intro a t hne ht hhalf'
          exact hne (h.unique a a₀ t t₀ ht h₀ hhalf' hhalf)
        obtain hrecord | hrecord | hrecord := record_probe (b := b) hcurrent hhalf now r
        · rw [hrecord]
          exact h.release hothers rfl (Nat.le_succ _) fun heq => absurd heq (Nat.succ_ne_self _)
        · rw [hrecord]
          exact h.release hothers rfl (Nat.le_succ _) fun heq => absurd heq (Nat.succ_ne_self _)
        · rw [hrecord]
          exact h.release hothers rfl le_rfl fun _ => rfl
    | false =>
        have hclosed : c.state = .closed := by
          rw [h.current a₀ t₀ h₀ hcurrent, hhalf]
          rfl
        obtain ⟨failures, hopened⟩ | ⟨failures, hsame, -⟩ :=
          record_closed (b := b) hcurrent hhalf now r
        · rw [hopened]
          refine h.release ?_ rfl (Nat.le_succ _) fun heq => absurd heq (Nat.succ_ne_self _)
          intro a t hne ht hhalf'
          have hstate := h.current a t ht (h.probe a t ht hhalf').1
          rw [hclosed, hhalf'] at hstate
          cases hstate
        · rw [hsame]
          refine h.drop ?_ rfl rfl rfl
          intro t ht hhalf'
          rw [h₀, Option.some.injEq] at ht
          subst ht
          rw [hhalf] at hhalf'
          cases hhalf'

end Tickets

/-! ### Times -/

/-- A call that was admitted after an opening was admitted after the reset timeout. -/
def Event.Waits (b : CircuitBreaker) (later earlier : Event) : Prop :=
  ∀ openedAt a now, earlier = .opened openedAt → later = .admitted a now →
    openedAt + b.resetTimeoutMs ≤ now

/-- The history fits a circuit at a time. -/
structure Timeline (b : CircuitBreaker) (c : Circuit) (clock : ℚ) (history : List Event) :
    Prop where
  below : c.state = .closed → c.consecutiveFailures < b.failureThreshold
  opened : c.state = .opened → c.openedAt ≤ clock ∧ ∀ o, .opened o ∈ history → o ≤ c.openedAt
  elapsed : c.state ≠ .opened → ∀ o, .opened o ∈ history → o + b.resetTimeoutMs ≤ clock
  admissions : history.Pairwise (Event.Waits b)

namespace Timeline

variable {c : Circuit} {clock now : ℚ} {history : List Event}

theorem later (h : Timeline b c clock history) (hnow : clock ≤ now) :
  Timeline b c now history
  := by
  constructor
  case below => exact h.below
  case opened => exact fun hstate => ⟨(h.opened hstate).1.trans hnow, (h.opened hstate).2⟩
  case elapsed => exact fun hstate o ho => (h.elapsed hstate o ho).trans hnow
  case admissions => exact h.admissions

theorem refresh (h : Timeline b c now history) :
  Timeline b (b.refresh now c) now history
  := by
  rw [CircuitBreaker.refresh]
  split
  · exact h
  · rename_i hopen
    push Not at hopen
    constructor
    case below => rintro ⟨⟩
    case opened => rintro ⟨⟩
    case elapsed =>
      intro _ o ho
      have hbefore := (h.opened hopen.1).2 o ho
      linarith [hopen.2]
    case admissions => exact h.admissions

/-- Everything that has been opened was opened before. -/
theorem opened_le (h : Timeline b c now history) {o : ℚ} (ho : .opened o ∈ history) :
  o ≤ now
  := by
  by_cases hstate : c.state = .opened
  · exact ((h.opened hstate).2 o ho).trans (h.opened hstate).1
  · have helapsed := h.elapsed hstate o ho
    linarith [b.resetTimeoutMs_nonneg]

theorem admitted (h : Timeline b c now history) (hstate : c.state ≠ .opened) (a : ℕ)
    (probeActive : Bool) :
  Timeline b { c with probeActive := probeActive } now (.admitted a now :: history)
  := by
  constructor
  case below => exact h.below
  case opened => exact fun hopen => absurd hopen hstate
  case elapsed =>
    intro _ o ho
    obtain hfirst | ho := List.mem_cons.mp ho
    · cases hfirst
    · exact h.elapsed hstate o ho
  case admissions =>
    apply List.pairwise_cons.mpr
    refine ⟨?_, h.admissions⟩
    rintro e he openedAt a' now' rfl hadmitted
    cases hadmitted
    exact h.elapsed hstate openedAt he

theorem recorded (h : Timeline b c now history) (a : ℕ) :
  Timeline b c now (.recorded a :: history)
  := by
  have hmem : ∀ o, .opened o ∈ Event.recorded a :: history → .opened o ∈ history := by
    intro o ho
    obtain hfirst | ho := List.mem_cons.mp ho
    · cases hfirst
    · exact ho
  constructor
  case below => exact h.below
  case opened => exact fun hopen => ⟨(h.opened hopen).1, fun o ho => (h.opened hopen).2 o (hmem o ho)⟩
  case elapsed => exact fun hstate o ho => h.elapsed hstate o (hmem o ho)
  case admissions =>
    apply List.pairwise_cons.mpr
    refine ⟨?_, h.admissions⟩
    intro e he openedAt a' now' hopened hadmitted
    cases hadmitted

theorem openCircuit (h : Timeline b c now history) (failures : ℕ) :
  Timeline b (openCircuit now { c with consecutiveFailures := failures }) now
    (.opened now :: history)
  := by
  constructor
  case below => rintro ⟨⟩
  case opened =>
    intro _
    refine ⟨le_rfl, ?_⟩
    intro o ho
    obtain hfirst | ho := List.mem_cons.mp ho
    · cases hfirst
      exact le_rfl
    · exact h.opened_le ho
  case elapsed => exact fun hstate => absurd rfl hstate
  case admissions =>
    apply List.pairwise_cons.mpr
    refine ⟨?_, h.admissions⟩
    intro e he openedAt a now' hopened hadmitted
    cases hadmitted

/-- The circuit goes on, and is not opened. -/
theorem goes (h : Timeline b c now history) {c' : Circuit} (hstate : c.state ≠ .opened)
    (hstate' : c'.state ≠ .opened)
    (hbelow : c'.state = .closed → c'.consecutiveFailures < b.failureThreshold) :
  Timeline b c' now history
  := by
  constructor
  case below => exact hbelow
  case opened => exact fun hopen => absurd hopen hstate'
  case elapsed => exact fun _ => h.elapsed hstate
  case admissions => exact h.admissions

/-- A call ends and is recorded. -/
theorem record (h : Timeline b c now history) {tickets : ℕ → Option CircuitTicket}
    (htickets : Tickets c tickets) {a₀ : ℕ} {t₀ : CircuitTicket} (h₀ : tickets a₀ = some t₀)
    (r : Record) :
  Timeline b (b.record t₀ now r c) now
    (System.opening now c (b.record t₀ now r c) ++ .recorded a₀ :: history)
  := by
  have hopens : ∀ failures, System.opening now c
      (CircuitBreaker.openCircuit now { c with consecutiveFailures := failures }) =
        [.opened now] :=
    fun failures => if_pos ⟨(Nat.succ_ne_self _).symm, rfl⟩
  have hstays : ∀ c' : Circuit, c'.state ≠ .opened → System.opening now c c' = [] :=
    fun c' hstate => if_neg fun hopening => hstate hopening.2
  obtain hstale | hcurrent := ne_or_eq t₀.generation c.generation
  · rw [record_stale hstale]
    have hsame : System.opening now c c = [] := if_neg fun hopening => hopening.1 rfl
    rw [hsame]
    exact h.recorded a₀
  · have hstate := htickets.current a₀ t₀ h₀ hcurrent
    cases hhalf : t₀.halfOpen with
    | true =>
        rw [hhalf] at hstate
        have hhalfOpen : c.state = .halfOpen := hstate
        have hnot : c.state ≠ .opened := by
          rw [hhalfOpen]
          rintro ⟨⟩
        obtain hrecord | hrecord | hrecord := record_probe (b := b) hcurrent hhalf now r
        · rw [hrecord, hstays _ (by rintro ⟨⟩)]
          exact (h.recorded a₀).goes hnot (by rintro ⟨⟩) fun _ => b.failureThreshold_pos
        · rw [hrecord, hopens]
          exact (h.recorded a₀).openCircuit c.consecutiveFailures
        · rw [hrecord, hstays { c with probeActive := false } hnot]
          exact (h.recorded a₀).goes hnot hnot h.below
    | false =>
        rw [hhalf] at hstate
        have hclosed : c.state = .closed := hstate
        have hnot : c.state ≠ .opened := by
          rw [hclosed]
          rintro ⟨⟩
        obtain ⟨failures, hopened⟩ | ⟨failures, hsame, hbelow⟩ :=
          record_closed (b := b) hcurrent hhalf now r
        · rw [hopened, hopens]
          exact (h.recorded a₀).openCircuit failures
        · rw [hsame, hstays { c with consecutiveFailures := failures } hnot]
          exact (h.recorded a₀).goes hnot hnot fun _ => hbelow (h.below hclosed)

end Timeline

/-! ### Counts -/

/-- The calls that have been recorded are those that have been admitted and have ended. -/
structure Counts (phase : ℕ → Option (Phase ε)) (history : List Event) : Prop where
  once : ∀ a, history.count (.recorded a) ≤ 1
  pending : ∀ a, (phase a).bind Phase.ticket ≠ none → history.count (.recorded a) = 0
  new : ∀ a, phase a = none → history.count (.recorded a) = 0 ∧ ∀ now, .admitted a now ∉ history
  ended : ∀ a now, .admitted a now ∈ history → (phase a).bind Phase.ticket = none →
    history.count (.recorded a) = 1

namespace Counts

variable {phase : ℕ → Option (Phase ε)} {history : List Event} {a₀ : ℕ} {next : Phase ε}

/-- A call that was not admitted, or goes on, gets to a phase. -/
theorem proceed (h : Counts phase history)
    (hsame : (phase a₀ = none ∧ next.ticket = none) ∨
      (phase a₀).bind Phase.ticket = next.ticket ∧ next.ticket ≠ none) :
  Counts (Function.update phase a₀ (some next)) history
  := by
  constructor
  case once => exact h.once
  case pending =>
    intro a ha
    by_cases heq : a = a₀
    · subst heq
      rw [Function.update_self, Option.bind_some] at ha
      obtain ⟨-, hnone⟩ | ⟨hticket, -⟩ := hsame
      · exact absurd hnone ha
      · exact h.pending a (hticket ▸ ha)
    · rw [Function.update_of_ne heq] at ha
      exact h.pending a ha
  case new =>
    intro a ha
    by_cases heq : a = a₀
    · rw [heq, Function.update_self] at ha
      cases ha
    · rw [Function.update_of_ne heq] at ha
      exact h.new a ha
  case ended =>
    intro a now hadmitted ha
    by_cases heq : a = a₀
    · subst heq
      rw [Function.update_self, Option.bind_some] at ha
      obtain ⟨hnew, -⟩ | ⟨-, hsome⟩ := hsame
      · exact absurd hadmitted ((h.new a hnew).2 now)
      · exact absurd ha hsome
    · rw [Function.update_of_ne heq] at ha
      exact h.ended a now hadmitted ha

theorem admitted (h : Counts phase history) (hnew : phase a₀ = none) (hticket : next.ticket ≠ none)
    (now : ℚ) :
  Counts (Function.update phase a₀ (some next)) (.admitted a₀ now :: history)
  := by
  have hcount : ∀ a, (Event.admitted a₀ now :: history).count (.recorded a) =
      history.count (.recorded a) := by
    intro a
    apply List.count_cons_of_ne
    rintro ⟨⟩
  constructor
  case once =>
    intro a
    rw [hcount]
    exact h.once a
  case pending =>
    intro a ha
    rw [hcount]
    by_cases heq : a = a₀
    · subst heq
      exact (h.new a hnew).1
    · rw [Function.update_of_ne heq] at ha
      exact h.pending a ha
  case new =>
    intro a ha
    rw [hcount]
    by_cases heq : a = a₀
    · rw [heq, Function.update_self] at ha
      cases ha
    · rw [Function.update_of_ne heq] at ha
      refine ⟨(h.new a ha).1, ?_⟩
      intro now' hmem
      obtain hfirst | hmem := List.mem_cons.mp hmem
      · cases hfirst
        exact heq rfl
      · exact (h.new a ha).2 now' hmem
  case ended =>
    intro a now' hadmitted ha
    rw [hcount]
    by_cases heq : a = a₀
    · rw [heq, Function.update_self, Option.bind_some] at ha
      exact absurd ha hticket
    · rw [Function.update_of_ne heq] at ha
      obtain hfirst | hadmitted := List.mem_cons.mp hadmitted
      · cases hfirst
        exact absurd rfl heq
      · exact h.ended a now' hadmitted ha

theorem opened (h : Counts phase history) (now : ℚ) (before after : Circuit) :
  Counts phase (System.opening now before after ++ history)
  := by
  rw [System.opening]
  split
  · have hcount : ∀ a, (Event.opened now :: history).count (.recorded a) =
        history.count (.recorded a) := by
      intro a
      apply List.count_cons_of_ne
      rintro ⟨⟩
    have hmem : ∀ a now', .admitted a now' ∈ Event.opened now :: history →
        .admitted a now' ∈ history := by
      intro a now' hmem
      obtain hfirst | hmem := List.mem_cons.mp hmem
      · cases hfirst
      · exact hmem
    constructor
    case once => exact fun a => (hcount a).le.trans (h.once a)
    case pending => exact fun a ha => (hcount a).trans (h.pending a ha)
    case new =>
      intro a ha
      exact ⟨(hcount a).trans (h.new a ha).1, fun now' hnow' => (h.new a ha).2 now' (hmem a now' hnow')⟩
    case ended =>
      intro a now' hadmitted ha
      exact (hcount a).trans (h.ended a now' (hmem a now' hadmitted) ha)
  · exact h

/-- An admitted call ends and is recorded. -/
theorem record (h : Counts phase history) (hticket : (phase a₀).bind Phase.ticket ≠ none)
    (hended : next.ticket = none) :
  Counts (Function.update phase a₀ (some next)) (.recorded a₀ :: history)
  := by
  have hnone : history.count (.recorded a₀) = 0 := h.pending a₀ hticket
  have hcount : ∀ a, a ≠ a₀ → (Event.recorded a₀ :: history).count (.recorded a) =
      history.count (.recorded a) := by
    intro a hne
    apply List.count_cons_of_ne
    rintro ⟨⟩
    exact hne rfl
  have hone : (Event.recorded a₀ :: history).count (.recorded a₀) = 1 := by
    rw [List.count_cons_self, hnone]
  have hmem : ∀ a now, .admitted a now ∈ Event.recorded a₀ :: history →
      .admitted a now ∈ history := by
    intro a now hmem
    obtain hfirst | hmem := List.mem_cons.mp hmem
    · cases hfirst
    · exact hmem
  constructor
  case once =>
    intro a
    by_cases heq : a = a₀
    · rw [heq, hone]
    · rw [hcount a heq]
      exact h.once a
  case pending =>
    intro a ha
    by_cases heq : a = a₀
    · rw [heq, Function.update_self, Option.bind_some] at ha
      exact absurd hended ha
    · rw [Function.update_of_ne heq] at ha
      rw [hcount a heq]
      exact h.pending a ha
  case new =>
    intro a ha
    by_cases heq : a = a₀
    · rw [heq, Function.update_self] at ha
      cases ha
    · rw [Function.update_of_ne heq] at ha
      rw [hcount a heq]
      exact ⟨(h.new a ha).1, fun now hnow => (h.new a ha).2 now (hmem a now hnow)⟩
  case ended =>
    intro a now hadmitted ha
    by_cases heq : a = a₀
    · rw [heq, hone]
    · rw [Function.update_of_ne heq] at ha
      rw [hcount a heq]
      exact h.ended a now (hmem a now hadmitted) ha

end Counts

/-! ### Runs -/

/-- What holds of a breaker and its calls. -/
structure Safe (b : CircuitBreaker) (s : System ε) : Prop where
  /-- At most one probe is outstanding. -/
  probe : ∀ a a' t t', s.ticket a = some t → s.ticket a' = some t' → t.halfOpen = true →
    t'.halfOpen = true → a = a'
  /-- The slot of the probe is taken only while the probe is outstanding. -/
  released : s.circuit.probeActive = true → ∃ a t, s.ticket a = some t ∧ t.halfOpen = true
  recorded : ∀ a, s.history.count (.recorded a) ≤ 1
  /-- A call that was admitted and has ended has been recorded. -/
  ended : ∀ a now, .admitted a now ∈ s.history → s.ticket a = none →
    s.history.count (.recorded a) = 1
  /-- An outcome of an earlier generation changes nothing. -/
  stale : ∀ a t now next, s.ticket a = some t → t.generation ≠ s.circuit.generation →
    (s.settle b a t now next).circuit = s.circuit
  closed : s.circuit.state = .closed → s.circuit.consecutiveFailures < b.failureThreshold
  /-- After an opening no call is admitted before the reset timeout has passed. -/
  admissions : s.history.Pairwise (Event.Waits b)

/-- The invariant of a breaker and its calls. -/
structure Inv (b : CircuitBreaker) (s : System ε) : Prop where
  tickets : Tickets s.circuit s.ticket
  timeline : Timeline b s.circuit s.clock s.history
  counts : Counts s.phase s.history

namespace Inv

variable {s : System ε} {a : ℕ} {now : ℚ} {ticket : CircuitTicket}

theorem ticket_update (s : System ε) (a : ℕ) (next : Phase ε) :
  (fun a' => (Function.update s.phase a (some next) a').bind Phase.ticket) =
    Function.update s.ticket a next.ticket
  := by
  funext a'
  by_cases ha : a' = a
  · subst ha
    rw [Function.update_self, Function.update_self, Option.bind_some]
  · rw [Function.update_of_ne ha, Function.update_of_ne ha]
    rfl

/-- The tickets of a system in which a call has got to a phase. -/
theorem tickets_update {c : Circuit} {next : Phase ε}
    (h : Tickets c (Function.update s.ticket a next.ticket)) :
  Tickets c (fun a' => (Function.update s.phase a (some next) a').bind Phase.ticket)
  := by
  rw [ticket_update]
  exact h

/-- A call ends without having been admitted. -/
theorem rejected (h : Inv b s) (hnew : s.phase a = none) {next : Phase ε}
    (hnext : next.ticket = none) :
  Inv b (s.proceed a next)
  := by
  have hnone : s.ticket a = none := by rw [System.ticket, hnew, Option.bind_none]
  constructor
  case tickets =>
    apply tickets_update
    rw [hnext, ← hnone, Function.update_eq_self]
    exact h.tickets
  case timeline => exact h.timeline
  case counts => exact h.counts.proceed (.inl ⟨hnew, hnext⟩)

theorem refresh (h : Inv b s) (hnow : s.clock ≤ now) :
  Inv b { s with circuit := b.refresh now s.circuit, clock := now }
  := ⟨h.tickets.refresh now, (h.timeline.later hnow).refresh, h.counts⟩

/-- A refreshed circuit admits a call, or does not. -/
theorem admission_cases (now : ℚ) (c : Circuit) :
  b.admitCall now c = (none, b.refresh now c) ∨
    ∃ halfOpen, (b.refresh now c).state = (if halfOpen then .halfOpen else .closed) ∧
      (halfOpen = true → (b.refresh now c).probeActive = false) ∧
      b.admitCall now c = (some ⟨(b.refresh now c).generation, halfOpen⟩,
        { b.refresh now c with probeActive := halfOpen || (b.refresh now c).probeActive })
  := by
  rw [admitCall]
  cases (b.refresh now c) with
  | mk state failures openedAt probeActive generation =>
      cases state with
      | opened => exact .inl rfl
      | closed => exact .inr ⟨false, rfl, by rintro ⟨⟩, rfl⟩
      | halfOpen =>
          cases probeActive with
          | true => exact .inl rfl
          | false => exact .inr ⟨true, rfl, fun _ => rfl, rfl⟩

/-- A closed circuit has no probe. -/
theorem probeActive_closed {c : Circuit} {tickets : ℕ → Option CircuitTicket}
    (h : Tickets c tickets) (hclosed : c.state = .closed) :
  c.probeActive = false
  := by
  cases hactive : c.probeActive with
  | false => rfl
  | true =>
      obtain ⟨a, t, ht, hhalf⟩ := h.released hactive
      have hstate := h.current a t ht (h.probe a t ht hhalf).1
      rw [hclosed, hhalf] at hstate
      cases hstate

theorem execute (h : Inv b s) (hnew : s.phase a = none) (hnow : s.clock ≤ now)
    (call : Execution ε) :
  Inv b (s.execute b a now call)
  := by
  rw [System.execute]
  split
  · exact h.rejected hnew rfl
  · exact h.rejected hnew rfl
  · split
    · exact h.rejected hnew rfl
    · have hrefreshed := h.refresh hnow
      obtain hadmission | ⟨halfOpen, hstate, hprobe, hadmission⟩ := admission_cases (b := b) now s.circuit
      · rw [hadmission]
        exact hrefreshed.rejected hnew rfl
      · have hinactive : (b.refresh now s.circuit).probeActive = false := by
          cases halfOpen with
          | true => exact hprobe rfl
          | false => exact probeActive_closed hrefreshed.tickets hstate
        have hnone : s.ticket a = none := by rw [System.ticket, hnew, Option.bind_none]
        have hnot : (b.refresh now s.circuit).state ≠ .opened := by
          rw [hstate]
          cases halfOpen with
          | true | false => rintro ⟨⟩
        rw [hadmission]
        rw [hinactive, Bool.or_false]
        constructor
        case tickets =>
          apply tickets_update
          exact hrefreshed.tickets.admitted hnone hstate hinactive
        case timeline => exact hrefreshed.timeline.admitted hnot a halfOpen
        case counts => exact h.counts.admitted hnew (by rintro ⟨⟩) now

/-- A call goes on, or ends and is recorded. -/
theorem settle (h : Inv b s) (hticket : s.ticket a = some ticket) (hnow : s.clock ≤ now)
    {next : Phase ε × Option Record}
    (hnext : next.2 = none ∧ next.1.ticket = some ticket ∨
      (∃ r, next.2 = some r) ∧ next.1.ticket = none) :
  Inv b (s.settle b a ticket now next)
  := by
  have hsome : (s.phase a).bind Phase.ticket ≠ none := by
    rw [show (s.phase a).bind Phase.ticket = some ticket from hticket]
    rintro ⟨⟩
  obtain ⟨hnone, hgoes⟩ | ⟨⟨r, hr⟩, hended⟩ := hnext
  · simp only [System.settle, hnone]
    constructor
    case tickets =>
      apply tickets_update
      rw [hgoes, ← hticket, Function.update_eq_self]
      exact h.tickets
    case timeline => exact h.timeline.later hnow
    case counts =>
      apply h.counts.proceed
      right
      rw [hgoes]
      exact ⟨hticket, by rintro ⟨⟩⟩
  · simp only [System.settle, hr]
    constructor
    case tickets =>
      apply tickets_update
      rw [hended]
      exact h.tickets.record hticket now r
    case timeline => exact (h.timeline.later hnow).record h.tickets hticket r
    case counts => exact (h.counts.record hsome hended).opened now _ _

theorem settleOperation_cases (ticket : CircuitTicket) (result : OperationResult ε) :
  (b.settleOperation ticket result).2 = none ∧
      (b.settleOperation ticket result).1.ticket = some ticket ∨
    (∃ r, (b.settleOperation ticket result).2 = some r) ∧
      (b.settleOperation ticket result).1.ticket = none
  := by
  cases result with
  | returned => exact .inr ⟨⟨_, rfl⟩, rfl⟩
  | failed failure reading =>
      cases reading with
      | throws | ended => exact .inr ⟨⟨_, rfl⟩, rfl⟩
      | active =>
          simp only [CircuitBreaker.settleOperation]
          split
          · exact .inl ⟨rfl, rfl⟩
          · exact .inr ⟨⟨_, rfl⟩, rfl⟩

theorem settleClassification_cases (failure : ε) (result : ClassifierResult ε) :
  (∃ r, (settleClassification failure result).2 = some r) ∧
    (settleClassification failure result).1.ticket = none
  := by
  cases result with
  | threw classificationFailure reading =>
      cases reading with
      | throws | ended | active => exact ⟨⟨_, rfl⟩, rfl⟩
  | returned breakerFailure reading =>
      cases reading with
      | throws | ended => exact ⟨⟨_, rfl⟩, rfl⟩
      | active =>
          cases breakerFailure with
          | none => exact ⟨⟨_, rfl⟩, rfl⟩
          | some breakerFailure =>
              cases breakerFailure with
              | true | false => exact ⟨⟨_, rfl⟩, rfl⟩

theorem ticket_of_phase {phase : Phase ε} (hphase : s.phase a = some phase)
    (hticket : phase.ticket = some ticket) :
  s.ticket a = some ticket
  := by rw [System.ticket, hphase, Option.bind_some, hticket]

/-- Every step keeps the invariant. -/
theorem step {s' : System ε} (h : Inv b s) (hstep : b.Step s s') :
  Inv b s'
  := by
  cases hstep with
  | execute call hnew hnow => exact h.execute hnew hnow call
  | operation result hphase hnow =>
      exact h.settle (ticket_of_phase hphase rfl) hnow (settleOperation_cases _ result)
  | classification result hphase hnow =>
      exact h.settle (ticket_of_phase hphase rfl) hnow (.inr (settleClassification_cases _ result))
  | snapshot hnow => exact h.refresh hnow

theorem newSystem (now : ℚ) :
  Inv b (newSystem now : System ε)
  := by
  constructor
  case tickets =>
    constructor
    case past => rintro a t ⟨⟩
    case current => rintro a t ⟨⟩
    case probe => rintro a t ⟨⟩
    case unique => rintro a a' t t' ⟨⟩
    case released => rintro ⟨⟩
  case timeline =>
    constructor
    case below => exact fun _ => b.failureThreshold_pos
    case opened => rintro ⟨⟩
    case elapsed => exact fun _ o ho => absurd ho List.not_mem_nil
    case admissions => exact List.Pairwise.nil
  case counts =>
    constructor
    case once => exact fun a => Nat.zero_le _
    case pending => exact fun a ha => absurd rfl ha
    case new => exact fun a _ => ⟨rfl, fun now hnow => absurd hnow List.not_mem_nil⟩
    case ended => exact fun a now hnow => absurd hnow List.not_mem_nil

theorem run {s' : System ε} (h : Inv b s) (hrun : ReflTransGen b.Step s s') :
  Inv b s'
  := by
  induction hrun with
  | refl => exact h
  | tail _ hstep ih => exact ih.step hstep

end Inv

/-- In every run of calls, however they overlap, a breaker is safe. -/
theorem circuit_safe {now : ℚ} {s : System ε} (hrun : ReflTransGen b.Step (newSystem now) s) :
  Safe b s
  := by
  have hinv : Inv b s := (Inv.newSystem now).run hrun
  constructor
  case probe => exact hinv.tickets.unique
  case released => exact hinv.tickets.released
  case recorded => exact hinv.counts.once
  case ended => exact hinv.counts.ended
  case stale =>
    intro a t now next _ hstale
    rw [System.settle]
    split
    · rfl
    · exact record_stale hstale now _
  case closed => exact hinv.timeline.below
  case admissions => exact hinv.timeline.admissions

/-- A breaker that opens with the first failure, for ten milliseconds. -/
def smallBreaker : CircuitBreaker := ⟨1, 10, false, by decide, by decide⟩

/-- A call has failed, and the circuit has opened. -/
def failedSystem : System Unit :=
  ((newSystem 0 : System Unit).execute smallBreaker 0 1 ⟨.active, true⟩).settle smallBreaker 0
    ⟨0, false⟩ 2 (smallBreaker.settleOperation ⟨0, false⟩ (.failed () .active))

theorem circuit_safe_failed :
  ReflTransGen smallBreaker.Step (newSystem 0) failedSystem ∧ Safe smallBreaker failedSystem
  := by
  have hadmitted : smallBreaker.Step (newSystem 0)
      ((newSystem 0 : System Unit).execute smallBreaker 0 1 ⟨.active, true⟩) :=
    .execute ⟨.active, true⟩ rfl (by decide)
  have hfailed : smallBreaker.Step
      ((newSystem 0 : System Unit).execute smallBreaker 0 1 ⟨.active, true⟩) failedSystem :=
    .operation (.failed () .active) rfl (by decide)
  have hrun : ReflTransGen smallBreaker.Step (newSystem 0) failedSystem :=
    (ReflTransGen.single hadmitted).tail hfailed
  exact ⟨hrun, circuit_safe hrun⟩

end Resilience.CircuitBreaker
