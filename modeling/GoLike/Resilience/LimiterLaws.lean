import GoLike.Resilience.LimiterEager
import Mathlib.Tactic.Linarith

/-!
# What a limiter decides

The outcomes of a limiter are those of an eager bucket. A call that takes no token changes no
later outcome, the calls that are allowed in a window of time are bounded by its length, and
the delay of a denied call is the time until the next call is allowed.
-/

namespace Resilience.TokenBucket

variable {b : TokenBucket} {κ : Type} {origin : ℤ}

/-! ### Runs -/

theorem run_append (s : Limiter) (xs ys : List (ℤ × Call κ)) :
  b.run s (xs ++ ys) =
    ((b.run s xs).1 ++ (b.run (b.run s xs).2 ys).1, (b.run (b.run s xs).2 ys).2)
  := by
  induction xs generalizing s with
  | nil => rfl
  | cons c xs ih => simp only [List.cons_append, run, ih]

theorem length_run (s : Limiter) (calls : List (ℤ × Call κ)) :
  (b.run s calls).1.length = calls.length
  := by
  induction calls generalizing s with
  | nil => rfl
  | cons c calls ih => simp only [run, List.length_cons, ih]

variable {s : Limiter} {e : Eager}

/-- The limiter follows an eager bucket whose clock shows the time of the last call. -/
theorem Follows.after (h : b.Follows origin s e) {xs ys : List (ℤ × Call κ)}
    (htimed : Timed e.clock (xs ++ ys)) :
  ∃ e', b.Follows origin (b.run s xs).2 e' ∧ Timed e'.clock ys
  := by
  induction xs generalizing s e with
  | nil => exact ⟨e, h, htimed⟩
  | cons c xs ih =>
      obtain ⟨hle, hrest⟩ := timed_cons.mp htimed
      obtain ⟨-, hfollows, hclock⟩ := h.serve hle c.2
      rw [← hclock] at hrest
      exact ih hfollows hrest

/-! ### Calls that take no token -/

variable {now : ℤ}

theorem serve_denied {call : Call κ} (h : (Eager.serve b origin now call e).1.isAllowed = false) :
  (Eager.serve b origin now call e).2 = e.advance b origin now
  := by
  cases call with
  | snapshot => rfl
  | allow failure =>
      cases failure with
      | some failure => rfl
      | none =>
          simp only [Eager.serve] at h ⊢
          split
          · rename_i htokens
            rw [if_pos htokens] at h
            cases h
          · rfl

variable {calls : List (ℤ × Call κ)}

/-- What takes no token changes no later outcome. -/
theorem Follows.run_denied (h : b.Follows origin s e) {c : ℤ × Call κ}
    (htimed : Timed e.clock (c :: calls)) (hdenied : (b.serve c.1 c.2 s).1.isAllowed = false) :
  (b.run (b.serve c.1 c.2 s).2 calls).1 = (b.run s calls).1
  := by
  obtain ⟨hle, hrest⟩ := timed_cons.mp htimed
  obtain ⟨houtcome, hfollows, hclock⟩ := h.serve hle c.2
  rw [houtcome] at hdenied
  have hsame := serve_denied hdenied
  rw [hsame] at hfollows hclock
  rw [← hclock] at hrest
  rw [hfollows.run hrest, (h.advance c.1).run hrest]

/-! ### Windows of time -/

/-- The number of boundaries since the origin. -/
def boundaries (b : TokenBucket) (origin now : ℤ) : ℤ := (now - origin) / b.refillIntervalMs

theorem boundaries_mono {later : ℤ} (h : now ≤ later) :
  b.boundaries origin now ≤ b.boundaries origin later
  := Int.ediv_le_ediv (by exact_mod_cast b.refillIntervalMs_pos) (by omega)

theorem boundaries_boundary (h : (now + 1 - origin) % b.refillIntervalMs = 0) :
  b.boundaries origin now + 1 ≤ b.boundaries origin (now + 1)
  := by
  have hpos : (0 : ℤ) < b.refillIntervalMs := by exact_mod_cast b.refillIntervalMs_pos
  obtain ⟨k, hk⟩ := Int.dvd_of_emod_eq_zero h
  have hafter : b.boundaries origin (now + 1) = k := by
    rw [boundaries, hk, Int.mul_ediv_cancel_left _ hpos.ne']
  have hbefore : b.boundaries origin now < k := by
    apply Int.ediv_lt_of_lt_mul hpos
    rw [Int.mul_comm]
    omega
  omega

/-- A window has at most one boundary more than whole intervals. -/
theorem boundaries_window (now : ℤ) (length : ℕ) :
  b.boundaries origin (now + length) ≤
    b.boundaries origin now + (length / b.refillIntervalMs : ℕ) + 1
  := by
  have hpos : (0 : ℤ) < b.refillIntervalMs := by exact_mod_cast b.refillIntervalMs_pos
  have hstart := Int.lt_ediv_add_one_mul_self (now - origin) hpos
  have hlength : (length : ℤ) < ((length / b.refillIntervalMs : ℕ) + 1) * b.refillIntervalMs := by
    exact_mod_cast Nat.lt_div_mul_add b.refillIntervalMs_pos |>.trans_eq (by ring)
  have hlt : b.boundaries origin (now + length) <
      b.boundaries origin now + (length / b.refillIntervalMs : ℕ) + 2 := by
    apply Int.ediv_lt_of_lt_mul hpos
    unfold boundaries
    linarith
  omega

namespace Eager

variable {e : Eager} {now : ℤ}

theorem advance_advance {later : ℤ} (hnow : e.clock ≤ now) (hle : now ≤ later) :
  (e.advance b origin now).advance b origin later = e.advance b origin later
  := by
  have hsteps : (later - e.clock).toNat = (later - now).toNat + (now - e.clock).toNat := by omega
  have hclock : (e.advance b origin now).clock = now := clock_advance hnow
  unfold advance at hclock
  rw [advance, advance, advance, hclock, hsteps, Function.iterate_add_apply]

variable (b origin) in
/-- Passing time adds the tokens of the boundaries that it passes. -/
theorem tokens_advance (e : Eager) (h : e.clock ≤ now) :
  ((e.advance b origin now).tokens : ℤ) ≤
    e.tokens + b.refillTokens * (b.boundaries origin now - b.boundaries origin e.clock)
  := by
  obtain ⟨n, rfl⟩ := Int.le.dest h
  induction n with
  | zero => simp [advance]
  | succ n ih =>
      have hle : e.clock ≤ e.clock + n := by omega
      have hnext : e.clock + n ≤ e.clock + (n + 1 : ℕ) := by omega
      have hone : e.clock + (n + 1 : ℕ) = e.clock + n + 1 := by
        push_cast
        ring
      have htick : e.advance b origin (e.clock + (n + 1 : ℕ)) =
          (e.advance b origin (e.clock + n)).tick b origin := by
        rw [← advance_advance hle hnext, advance, clock_advance hle]
        have hsteps : (e.clock + (n + 1 : ℕ) - (e.clock + n)).toNat = 1 := by omega
        rw [hsteps]
        rfl
      have hmono : b.boundaries origin (e.clock + n) ≤ b.boundaries origin (e.clock + (n + 1 : ℕ)) :=
        boundaries_mono hnext
      have hbefore := ih hle
      rw [htick, tick, clock_advance hle]
      split
      · rename_i hboundary
        have hadds := boundaries_boundary hboundary
        rw [← hone] at hadds
        have hmin : ((min b.capacity ((e.advance b origin (e.clock + n)).tokens +
            b.refillTokens) : ℕ) : ℤ) ≤ (e.advance b origin (e.clock + n)).tokens +
              b.refillTokens := by
          exact_mod_cast Nat.min_le_right _ _
        nlinarith
      · nlinarith

variable (b origin) in
theorem tokens_advance_le (h : e.tokens ≤ b.capacity) (now : ℤ) :
  (e.advance b origin now).tokens ≤ b.capacity
  := by
  have key : ∀ n : ℕ, ((tick b origin)^[n] e).tokens ≤ b.capacity := by
    intro n
    induction n with
    | zero => exact h
    | succ n ih =>
        rw [Function.iterate_succ_apply', tick]
        split
        · exact Nat.min_le_left _ _
        · exact ih
  exact key _

variable (b origin) in
/-- A call takes a token if it is allowed. -/
theorem tokens_serve (e : Eager) (now : ℤ) (call : Call κ) :
  (serve b origin now call e).2.tokens + (serve b origin now call e).1.isAllowed.toNat =
    (e.advance b origin now).tokens
  := by
  cases call with
  | snapshot => rfl
  | allow failure =>
      cases failure with
      | some failure => rfl
      | none =>
          simp only [serve]
          split
          · rename_i htokens
            exact Nat.sub_add_cancel htokens
          · rfl

theorem clock_serve (h : e.clock ≤ now) (call : Call κ) :
  (serve b origin now call e).2.clock = now
  := by
  have hclock : (e.advance b origin now).clock = now := clock_advance h
  cases call with
  | snapshot => exact hclock
  | allow failure =>
      cases failure with
      | some failure => exact hclock
      | none =>
          simp only [serve]
          split
          · exact hclock
          · exact hclock

/-- Time may pass before the first call. -/
theorem run_advance (hnow : e.clock ≤ now) {calls : List (ℤ × Call κ)} (htimed : Timed now calls) :
  run b origin (e.advance b origin now) calls = run b origin e calls
  := by
  cases calls with
  | nil => rfl
  | cons c calls =>
      have hserve : serve b origin c.1 c.2 (e.advance b origin now) =
          serve b origin c.1 c.2 e := by
        simp only [serve, advance_advance hnow (timed_cons.mp htimed).1]
      rw [run, run, hserve]

end Eager

/-- A timed call was allowed between two times. -/
def allowedBetween (first last : ℤ) (entry : (ℤ × Call κ) × Outcome κ) : Bool :=
  decide (first ≤ entry.1.1 ∧ entry.1.1 ≤ last) && entry.2.isAllowed

theorem allowedBetween_le (first last : ℤ) (entry : (ℤ × Call κ) × Outcome κ) :
  (if allowedBetween first last entry = true then 1 else 0) ≤ entry.2.isAllowed.toNat
  := by
  split
  · rename_i h
    rw [allowedBetween, Bool.and_eq_true] at h
    rw [h.2]
    rfl
  · exact Nat.zero_le _

theorem allowedBetween_late {first last : ℤ} (hlate : last < now) (htimed : Timed now calls)
    (outcomes : List (Outcome κ)) :
  (calls.zip outcomes).countP (allowedBetween first last) = 0
  := by
  rw [List.countP_eq_zero]
  intro entry hentry
  have hmem : entry.1 ∈ calls := (List.of_mem_zip hentry).1
  have hle : now ≤ entry.1.1 := (List.pairwise_cons.mp htimed).1 _ (List.mem_map_of_mem hmem)
  simp only [allowedBetween, Bool.and_eq_true, decide_eq_true_eq]
  omega

variable (b origin) in
/-- The calls allowed up to a time take tokens that were there, or are received. -/
theorem allowed_le (first : ℤ) {last : ℤ} (htimed : Timed e.clock calls) (hclock : e.clock ≤ last) :
  ((calls.zip (Eager.run b origin e calls)).countP (allowedBetween first last) : ℤ) ≤
    e.tokens + b.refillTokens * (b.boundaries origin last - b.boundaries origin e.clock)
  := by
  induction calls generalizing e with
  | nil =>
      have hmono : b.boundaries origin e.clock ≤ b.boundaries origin last := boundaries_mono hclock
      have hreceived : (0 : ℤ) ≤
          b.refillTokens * (b.boundaries origin last - b.boundaries origin e.clock) :=
        Int.mul_nonneg (by omega) (by omega)
      simp only [List.zip_nil_left, List.countP_nil]
      omega
  | cons c calls ih =>
      obtain ⟨hle, hrest⟩ := timed_cons.mp htimed
      obtain hlate | hearly := Int.lt_or_le last c.1
      · have hmono : b.boundaries origin e.clock ≤ b.boundaries origin last :=
          boundaries_mono hclock
        have hreceived : (0 : ℤ) ≤
            b.refillTokens * (b.boundaries origin last - b.boundaries origin e.clock) :=
          Int.mul_nonneg (by omega) (by omega)
        have htimed' : Timed c.1 (c :: calls) := timed_cons.mpr ⟨le_rfl, hrest⟩
        rw [allowedBetween_late hlate htimed']
        omega
      · have hserved : (Eager.serve b origin c.1 c.2 e).2.clock = c.1 := Eager.clock_serve hle c.2
        have htokens := Eager.tokens_serve b origin e c.1 c.2
        have hreceived := Eager.tokens_advance b origin e hle
        have hothers := ih (e := (Eager.serve b origin c.1 c.2 e).2) (by rwa [hserved])
          (by rwa [hserved])
        rw [hserved] at hothers
        have hone : (if allowedBetween first last (c, (Eager.serve b origin c.1 c.2 e).1) = true
            then 1 else 0) ≤ (Eager.serve b origin c.1 c.2 e).1.isAllowed.toNat :=
          allowedBetween_le first last _
        rw [Eager.run, List.zip_cons_cons, List.countP_cons, Nat.cast_add]
        have hsum : b.refillTokens * (b.boundaries origin last - b.boundaries origin e.clock) =
            b.refillTokens * (b.boundaries origin last - b.boundaries origin c.1) +
              (b.refillTokens : ℤ) * (b.boundaries origin c.1 - b.boundaries origin e.clock) := by
          ring
        omega

/-- A window of time allows no more calls than a full bucket and its boundaries give. -/
theorem window_le (hcapacity : e.tokens ≤ b.capacity) (first : ℤ) (length : ℕ)
    (htimed : Timed e.clock calls) :
  (calls.zip (Eager.run b origin e calls)).countP (allowedBetween first (first + length)) ≤
    b.capacity + b.refillTokens * (length / b.refillIntervalMs + 1)
  := by
  induction calls generalizing e with
  | nil => simp
  | cons c calls ih =>
      obtain ⟨hle, hrest⟩ := timed_cons.mp htimed
      obtain hbefore | hwithin := Int.lt_or_le c.1 first
      · have hserved : (Eager.serve b origin c.1 c.2 e).2.clock = c.1 := Eager.clock_serve hle c.2
        have htokens := Eager.tokens_serve b origin e c.1 c.2
        have hle' := Eager.tokens_advance_le b origin hcapacity c.1
        have hnot : allowedBetween first (first + length)
            (c, (Eager.serve b origin c.1 c.2 e).1) = false := by
          simp only [allowedBetween, Bool.and_eq_false_iff, decide_eq_false_iff_not]
          left
          omega
        rw [Eager.run, List.zip_cons_cons, List.countP_cons_of_neg (by simp [hnot])]
        exact ih (by omega) (by rwa [hserved])
      · let now := max first e.clock
        have hfirst : first ≤ now := le_max_left _ _
        have hnow : e.clock ≤ now := le_max_right _ _
        have htimed' : Timed now (c :: calls) := timed_cons.mpr ⟨max_le hwithin hle, hrest⟩
        have hclock : (e.advance b origin now).clock = now := clock_advance hnow
        have htokens := Eager.tokens_advance_le b origin hcapacity now
        have hboundaries : b.boundaries origin (now + length) ≤
            b.boundaries origin now + (length / b.refillIntervalMs : ℕ) + 1 :=
          boundaries_window now length
        obtain hlate | hlast := Int.lt_or_le (first + length) now
        · rw [allowedBetween_late hlate htimed']
          exact Nat.zero_le _
        · rw [← hclock] at htimed' hlast
          have hallowed := allowed_le b origin first htimed' hlast
          rw [Eager.run_advance hnow (by rwa [hclock] at htimed'), hclock] at hallowed
          have hmore : b.boundaries origin (first + length) ≤ b.boundaries origin (now + length) :=
            boundaries_mono (by omega)
          have hreceived : (b.refillTokens : ℤ) *
              (b.boundaries origin (first + length) - b.boundaries origin now) ≤
                b.refillTokens * ((length / b.refillIntervalMs : ℕ) + 1) :=
            Int.mul_le_mul_of_nonneg_left (by omega) (by omega)
          have hcast : ((b.refillTokens * (length / b.refillIntervalMs + 1) : ℕ) : ℤ) =
              b.refillTokens * ((length / b.refillIntervalMs : ℕ) + 1) := by push_cast; ring
          omega

/-! ### Denied calls -/

namespace Eager

/-- The phase of a time between boundaries, counted from an earlier time. -/
theorem boundary_iff {now : ℤ} {n : ℕ} (h : n ≤ untilBoundary b origin now) (hpos : 0 < n) :
  (now + n - origin) % b.refillIntervalMs = 0 ↔ n = untilBoundary b origin now
  := by
  have hinterval : (0 : ℤ) < b.refillIntervalMs := by exact_mod_cast b.refillIntervalMs_pos
  have hphase := Int.emod_nonneg (now - origin) hinterval.ne'
  have hlt := Int.emod_lt_of_pos (now - origin) hinterval
  have hsum : now + n - origin = (now - origin) + n := by ring
  rw [hsum, ← Int.emod_add_emod]
  unfold untilBoundary at h ⊢
  constructor
  · intro hzero
    by_contra hne
    rw [Int.emod_eq_of_lt (by omega) (by omega)] at hzero
    omega
  · intro heq
    have hwhole : (now - origin) % b.refillIntervalMs + n = b.refillIntervalMs := by omega
    rw [hwhole, Int.emod_self]

theorem tokens_iterate_tick {e : Eager} {n : ℕ} (h : n ≤ untilBoundary b origin e.clock) :
  ((tick b origin)^[n] e).clock = e.clock + n ∧
    ((tick b origin)^[n] e).tokens =
      if n = untilBoundary b origin e.clock ∧ 0 < n then min b.capacity (e.tokens + b.refillTokens)
      else e.tokens
  := by
  induction n with
  | zero => simp
  | succ n ih =>
      obtain ⟨hclock, htokens⟩ := ih (by push_cast at h; omega)
      have hbefore : ¬ ((n : ℤ) = untilBoundary b origin e.clock ∧ 0 < n) := by
        push_cast at h
        omega
      have hboundary := boundary_iff h n.succ_pos
      rw [if_neg hbefore] at htokens
      rw [Function.iterate_succ_apply', tick, hclock, htokens]
      constructor
      · push_cast
        ring
      · have hsum : e.clock + n + 1 - origin = e.clock + (n + 1 : ℕ) - origin := by
          push_cast
          ring
        simp only [hsum, hboundary, Nat.succ_pos, and_true]

/-- An empty bucket stays empty until the next boundary, and then is not empty. -/
theorem tokens_advance_empty {e : Eager} (hempty : e.tokens = 0) {now : ℤ} (hle : e.clock ≤ now)
    (hnow : now ≤ e.clock + untilBoundary b origin e.clock) :
  0 < (e.advance b origin now).tokens ↔ now = e.clock + untilBoundary b origin e.clock
  := by
  obtain ⟨n, rfl⟩ := Int.le.dest hle
  have hn : n ≤ untilBoundary b origin e.clock := by omega
  have hsteps : (e.clock + n - e.clock).toNat = n := by omega
  have hlt := Int.emod_lt_of_pos (e.clock - origin)
    (by exact_mod_cast b.refillIntervalMs_pos : (0 : ℤ) < b.refillIntervalMs)
  have hpos : 0 < untilBoundary b origin e.clock := by
    unfold untilBoundary
    omega
  have hcapacity := b.capacity_pos
  have hrefill := b.refillTokens_pos
  rw [advance, hsteps, (tokens_iterate_tick hn).2, hempty]
  split
  · omega
  · omega

end Eager

/-- A denied call knows when the next call is allowed. -/
theorem Follows.denied (h : b.Follows origin s e) (hle : e.clock ≤ now) {r : ℤ}
    (hdenied : (b.serve now (.allow none) s).1 = (.decided ⟨false, r⟩ : Outcome κ)) {later : ℤ}
    (hlater : now ≤ later) (hsoon : later ≤ now + r) :
  (b.serve later (.allow none : Call κ) (b.serve now (.allow none : Call κ) s).2).1.isAllowed =
    decide (later = now + r)
  := by
  obtain ⟨houtcome, hfollows, hclock⟩ := h.serve hle (.allow none : Call κ)
  rw [houtcome] at hdenied
  have hnot : (Eager.serve b origin now (.allow none : Call κ) e).1.isAllowed = false := by
    rw [hdenied]
    rfl
  have hsame := serve_denied hnot
  have hadvanced : (e.advance b origin now).clock = now := clock_advance hle
  have hempty : (e.advance b origin now).tokens = 0 ∧ r = Eager.untilBoundary b origin now := by
    simp only [Eager.serve] at hdenied
    split at hdenied
    · cases hdenied
    · cases hdenied
      exact ⟨by omega, rfl⟩
  rw [hsame] at hfollows
  have hafter : (e.advance b origin now).clock ≤ later := by rwa [hadvanced]
  have hnext := (hfollows.serve hafter (.allow none : Call κ)).1
  have hbefore : later ≤ (e.advance b origin now).clock +
      Eager.untilBoundary b origin (e.advance b origin now).clock := by
    rwa [hadvanced, ← hempty.2]
  have hiff := Eager.tokens_advance_empty hempty.1 hafter hbefore
  rw [hadvanced, ← hempty.2] at hiff
  rw [hnext]
  simp only [Eager.serve]
  split
  · rename_i htokens
    rw [decide_eq_true (hiff.mp htokens)]
    rfl
  · rename_i htokens
    rw [decide_eq_false (mt hiff.mpr htokens)]
    rfl

/-! ### The laws of a limiter -/

variable (b) in
/-- The limiter after timed calls. -/
def after (origin : ℤ) (calls : List (ℤ × Call κ)) : Limiter := (b.run (b.start origin) calls).2

variable (b) in
/-- The outcomes of timed calls. -/
def outcomes (origin : ℤ) (calls : List (ℤ × Call κ)) : List (Outcome κ) :=
  (b.run (b.start origin) calls).1

variable (b) in
/-- The outcome of one more call. -/
def outcome (origin : ℤ) (calls : List (ℤ × Call κ)) (c : ℤ × Call κ) : Outcome κ :=
  (b.serve c.1 c.2 (b.after origin calls)).1

theorem follows_start (origin : ℤ) :
  b.Follows origin (b.start origin) ⟨b.initialTokens, origin⟩
  := by
  constructor
  case valid => exact ⟨b.initialTokens_le, le_rfl⟩
  case aligned => simp [start]
  case tokens => simp [start, refill]

/-- What a limiter promises for timed calls. -/
structure Laws (b : TokenBucket) (origin : ℤ) (calls : List (ℤ × Call κ)) : Prop where
  /-- Lazy refill is eager refill. -/
  eager : b.outcomes origin calls = Eager.run b origin ⟨b.initialTokens, origin⟩ calls
  /-- Without a call that was not allowed, the other outcomes are the same. -/
  inserted : ∀ xs c ys, calls = xs ++ c :: ys → (b.outcome origin xs c).isAllowed = false →
    b.outcomes origin (xs ++ ys) = (b.outcomes origin calls).eraseIdx xs.length
  /-- A window of time allows a bounded number of calls. -/
  window : ∀ (first : ℤ) (length : ℕ),
    (calls.zip (b.outcomes origin calls)).countP (allowedBetween first (first + length)) ≤
      b.capacity + b.refillTokens * (length / b.refillIntervalMs + 1)
  /-- Until the delay of a denied call has passed calls are denied, and then one is allowed. -/
  denied : ∀ xs now ys r, calls = xs ++ (now, .allow none) :: ys →
    b.outcome origin xs (now, .allow none) = .decided ⟨false, r⟩ →
    ∀ later, now ≤ later → later ≤ now + r →
      (b.outcome origin (xs ++ [(now, .allow none)]) (later, .allow none)).isAllowed =
        decide (later = now + r)

/-- A limiter keeps its promises, whenever it is called. -/
theorem tokenBucket_laws (b : TokenBucket) (origin : ℤ) (calls : List (ℤ × Call κ))
    (h : Timed origin calls) :
  b.Laws origin calls
  := by
  have hstart : b.Follows origin (b.start origin) ⟨b.initialTokens, origin⟩ :=
    follows_start origin
  have heager := hstart.run h
  constructor
  case eager => exact heager
  case inserted =>
    rintro xs c ys rfl hdenied
    obtain ⟨e, hfollows, htimed⟩ := hstart.after h
    have hsame := hfollows.run_denied htimed hdenied
    have hlength : (b.outcomes origin xs).length = xs.length := length_run _ _
    have hwhole : b.outcomes origin (xs ++ c :: ys) =
        b.outcomes origin xs ++ b.outcome origin xs c :: (b.run (b.after origin xs) ys).1 := by
      rw [after, ← hsame, outcomes, run_append]
      rfl
    have herased : b.outcomes origin (xs ++ ys) =
        b.outcomes origin xs ++ (b.run (b.after origin xs) ys).1 := by
      rw [outcomes, run_append]
      rfl
    rw [hwhole, herased, ← hlength, List.eraseIdx_append_of_length_le le_rfl, Nat.sub_self,
      List.eraseIdx_cons_zero]
  case window =>
    intro first length
    rw [outcomes, heager]
    exact window_le b.initialTokens_le first length h
  case denied =>
    rintro xs now ys r rfl hdenied later hlater hsoon
    obtain ⟨e, hfollows, htimed⟩ := hstart.after h
    have hnext := hfollows.denied (timed_cons.mp htimed).1 hdenied hlater hsoon
    rw [outcome, after, run_append]
    exact hnext

/-- A bucket for two tokens with one token, which receives one every two milliseconds. -/
def smallBucket : TokenBucket :=
  ⟨2, 1, 2, 1, Nat.two_pos, Nat.one_pos, Nat.two_pos, Nat.two_pos⟩

theorem tokenBucket_laws_small :
  smallBucket.Laws 0 ([(1, .allow none), (2, .allow none), (3, .allow none), (12, .snapshot)] :
    List (ℤ × Call Unit))
  := tokenBucket_laws smallBucket 0 _ (by simp [Timed])

end Resilience.TokenBucket
