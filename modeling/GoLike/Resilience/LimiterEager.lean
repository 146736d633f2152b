import GoLike.Resilience.Limiter
import Mathlib.Tactic.Ring

/-!
# Lazy refill is eager refill

An eager bucket is refilled at every boundary of the interval, as time passes. The limiter,
which is refilled only when it is looked at, has the same outcomes. So what a call decides
does not depend on snapshots and denied calls before it, a window of time allows no more calls
than the tokens it starts with and receives, and a denied call knows the next boundary.
-/

namespace Resilience.TokenBucket

variable {b : TokenBucket} {κ : Type}

/-! ### Refilling -/

variable {s : Limiter} {now : ℤ}

theorem Valid.later {later : ℤ} (h : b.Valid s now) (hle : now ≤ later) :
  b.Valid s later
  := ⟨h.tokens_le, h.refilled.trans hle⟩

/-- A limiter is refilled by the intervals since its last refill. -/
theorem refill_add (h : s.availableTokens ≤ b.capacity) (n : ℕ) :
  b.refill s (s.lastRefillAt + n) =
    ⟨b.accrue (n / b.refillIntervalMs) s.availableTokens,
      s.lastRefillAt + (n / b.refillIntervalMs : ℕ) * b.refillIntervalMs⟩
  := by
  have helapsed : s.lastRefillAt + n - s.lastRefillAt = n := by omega
  have hintervals : (n : ℤ) / b.refillIntervalMs = (n / b.refillIntervalMs : ℕ) := by simp
  obtain hzero | hpos := Nat.eq_zero_or_pos (n / b.refillIntervalMs)
  · have hsame : b.refill s (s.lastRefillAt + n) = s := by
      simp only [refill, helapsed, hintervals, hzero]
      simp
    rw [hsame, hzero, accrue_zero b h]
    simp
  · have hn : 0 < n := by
      by_contra hn
      rw [Nat.eq_zero_of_not_pos hn, Nat.zero_div] at hpos
      omega
    have hlate : ¬ s.lastRefillAt + n ≤ s.lastRefillAt := by omega
    have hmany : ¬ ((n / b.refillIntervalMs : ℕ) : ℤ) < 1 := by omega
    rw [refill, if_neg hlate, helapsed, hintervals]
    simp only [hmany, if_false, accrue, Int.toNat_natCast]

/-- A limiter that is refilled twice is refilled up to the later time. -/
theorem refill_refill {later : ℤ} (h : b.Valid s now) (hle : now ≤ later) :
  b.refill (b.refill s now) later = b.refill s later
  := by
  obtain ⟨m, rfl⟩ := Int.le.dest h.refilled
  obtain ⟨n, rfl⟩ := Int.le.dest hle
  let k := m / b.refillIntervalMs
  let rest := m + n - k * b.refillIntervalMs
  have hk : k * b.refillIntervalMs ≤ m + n :=
    (Nat.div_mul_le_self m b.refillIntervalMs).trans (Nat.le_add_right m n)
  have hmono : k ≤ (m + n) / b.refillIntervalMs := Nat.div_le_div_right (Nat.le_add_right m n)
  have hrest : k + rest / b.refillIntervalMs = (m + n) / b.refillIntervalMs := by
    have hdiv : rest / b.refillIntervalMs = (m + n) / b.refillIntervalMs - k := by
      rw [← Nat.sub_mul_div, Nat.mul_comm]
    omega
  have hfrom : s.lastRefillAt + m + n =
      s.lastRefillAt + (k : ℤ) * b.refillIntervalMs + (rest : ℕ) := by
    have hcast : (rest : ℤ) = m + n - k * b.refillIntervalMs := by
      simp only [rest]
      push_cast [hk]
      rfl
    rw [hcast]
    ring
  have hwhole : s.lastRefillAt + m + n = s.lastRefillAt + (m + n : ℕ) := by
    push_cast
    ring
  have htokens : b.accrue k s.availableTokens ≤ b.capacity := Nat.min_le_left _ _
  rw [refill_add h.tokens_le m, hfrom,
    refill_add (s := ⟨b.accrue k s.availableTokens, s.lastRefillAt + k * b.refillIntervalMs⟩)
      htokens rest, ← hfrom, hwhole, refill_add h.tokens_le (m + n), accrue_add, hrest, ← hrest]
  push_cast
  simp only [Limiter.mk.injEq, true_and]
  ring

/-- The next boundary is less than an interval away, or an interval. -/
theorem nextRefillIn_refill_add (h : s.availableTokens ≤ b.capacity) (n : ℕ) :
  b.nextRefillIn (b.refill s (s.lastRefillAt + n)) (s.lastRefillAt + n) =
    (b.refillIntervalMs - n % b.refillIntervalMs : ℕ)
  := by
  have hpos := b.refillIntervalMs_pos
  have hmod : n % b.refillIntervalMs < b.refillIntervalMs := Nat.mod_lt n hpos
  have hdiv := Nat.div_add_mod' n b.refillIntervalMs
  have hcast : (n : ℤ) = (n / b.refillIntervalMs : ℕ) * (b.refillIntervalMs : ℤ) +
      (n % b.refillIntervalMs : ℕ) := by
    exact_mod_cast hdiv.symm
  rw [refill_add h, nextRefillIn]
  simp only
  omega

/-- A refilled limiter is less than an interval old. -/
theorem near_refill (h : b.Valid s now) :
  now - (b.refill s now).lastRefillAt < b.refillIntervalMs
  := by
  obtain ⟨n, rfl⟩ := Int.le.dest h.refilled
  have hmod : n % b.refillIntervalMs < b.refillIntervalMs := Nat.mod_lt n b.refillIntervalMs_pos
  have hdiv : (n : ℤ) = (n / b.refillIntervalMs : ℕ) * (b.refillIntervalMs : ℤ) +
      (n % b.refillIntervalMs : ℕ) := by
    exact_mod_cast (Nat.div_add_mod' n b.refillIntervalMs).symm
  rw [refill_add h.tokens_le]
  simp only
  omega

theorem refill_eq_self (h : now - s.lastRefillAt < b.refillIntervalMs) :
  b.refill s now = s
  := by
  rw [refill]
  split
  · rfl
  · rename_i hlate
    have hnone : (now - s.lastRefillAt) / (b.refillIntervalMs : ℤ) = 0 :=
      Int.ediv_eq_zero_of_lt (by omega) h
    rw [hnone, if_pos (by decide)]

theorem Valid.refill (h : b.Valid s now) :
  b.Valid (b.refill s now) now
  := by
  obtain ⟨n, rfl⟩ := Int.le.dest h.refilled
  have hle := Nat.div_mul_le_self n b.refillIntervalMs
  rw [refill_add h.tokens_le]
  constructor
  case tokens_le => exact Nat.min_le_left _ _
  case refilled =>
    have hcast : ((n / b.refillIntervalMs : ℕ) : ℤ) * b.refillIntervalMs ≤ n := by exact_mod_cast hle
    simp only
    omega

/-! ### The eager bucket -/

/-- A bucket that time passes for. -/
structure Eager where
  tokens : ℕ
  clock : ℤ

namespace Eager

variable (b) (origin : ℤ)

/-- A unit of time passes. The bucket is refilled at every boundary since the origin. -/
def tick (e : Eager) : Eager :=
  { tokens :=
      if (e.clock + 1 - origin) % b.refillIntervalMs = 0 then
        min b.capacity (e.tokens + b.refillTokens)
      else e.tokens
    clock := e.clock + 1 }

/-- Time passes until the clock shows `now`. -/
def advance (e : Eager) (now : ℤ) : Eager := (tick b origin)^[(now - e.clock).toNat] e

/-- The time from now to the next boundary. -/
def untilBoundary (now : ℤ) : ℤ := b.refillIntervalMs - (now - origin) % b.refillIntervalMs

/-- Serve a call when the clock shows `now`. -/
def serve (now : ℤ) (call : Call κ) (e : Eager) : Outcome κ × Eager :=
  let e' := advance b origin e now
  match call with
  | .allow (some failure) => (.thrown failure, e')
  | .allow none =>
      if 0 < e'.tokens then (.decided ⟨true, 0⟩, { e' with tokens := e'.tokens - 1 })
      else (.decided ⟨false, untilBoundary b origin now⟩, e')
  | .snapshot => (.captured ⟨e'.tokens, b.capacity, untilBoundary b origin now⟩, e')

/-- The outcomes of timed calls. -/
def run (e : Eager) : List (ℤ × Call κ) → List (Outcome κ)
  | [] => []
  | (now, call) :: calls =>
      let served := serve b origin now call e
      served.1 :: run served.2 calls

end Eager

/-- The limiter refilled at a time is the eager bucket at that time. -/
structure Follows (b : TokenBucket) (origin : ℤ) (s : Limiter) (e : Eager) : Prop where
  valid : b.Valid s e.clock
  aligned : (b.refillIntervalMs : ℤ) ∣ s.lastRefillAt - origin
  tokens : (b.refill s e.clock).availableTokens = e.tokens

variable {origin : ℤ}

variable {e : Eager}

theorem Follows.tick (h : b.Follows origin s e) :
  b.Follows origin s (e.tick b origin)
  := by
  obtain ⟨tokens, clock⟩ := e
  obtain ⟨n, hn⟩ := Int.le.dest h.valid.refilled
  obtain rfl : s.lastRefillAt + n = clock := hn
  have hsame : s.lastRefillAt + n + 1 = s.lastRefillAt + (n + 1 : ℕ) := by
    push_cast
    ring
  have hboundary : (s.lastRefillAt + n + 1 - origin) % b.refillIntervalMs = 0 ↔
      b.refillIntervalMs ∣ n + 1 := by
    have hsum : s.lastRefillAt + n + 1 - origin = (s.lastRefillAt - origin) + (n + 1 : ℕ) := by
      push_cast
      ring
    rw [← Int.dvd_iff_emod_eq_zero, hsum, Int.dvd_add_right h.aligned]
    exact Int.natCast_dvd_natCast
  have hbefore : b.accrue (n / b.refillIntervalMs) s.availableTokens = tokens := by
    have htokens := h.tokens
    rw [refill_add h.valid.tokens_le] at htokens
    exact htokens
  constructor
  case valid => exact h.valid.later (by simp [Eager.tick])
  case aligned => exact h.aligned
  case tokens =>
    simp only [Eager.tick, hboundary]
    rw [hsame, refill_add h.valid.tokens_le, Nat.succ_div, ← hbefore]
    split
    · exact (accrue_add b _ 1 _).symm.trans (by simp [accrue])
    · simp

theorem Follows.advance (h : b.Follows origin s e) (now : ℤ) :
  b.Follows origin s (e.advance b origin now)
  := by
  have key : ∀ n : ℕ, b.Follows origin s ((Eager.tick b origin)^[n] e) := by
    intro n
    induction n with
    | zero => exact h
    | succ n ih =>
        rw [Function.iterate_succ_apply']
        exact ih.tick
  exact key _

theorem clock_advance (h : e.clock ≤ now) :
  (e.advance b origin now).clock = now
  := by
  have key : ∀ n : ℕ, ((Eager.tick b origin)^[n] e).clock = e.clock + n := by
    intro n
    induction n with
    | zero => simp
    | succ n ih =>
        rw [Function.iterate_succ_apply', Eager.tick, ih]
        push_cast
        ring
  rw [Eager.advance, key]
  omega

theorem Follows.refill (h : b.Follows origin s e) :
  b.Follows origin (b.refill s e.clock) e
  := by
  constructor
  case valid => exact h.valid.refill
  case aligned =>
    obtain ⟨n, hn⟩ := Int.le.dest h.valid.refilled
    rw [← hn, refill_add h.valid.tokens_le]
    have hsum : s.lastRefillAt + (n / b.refillIntervalMs : ℕ) * (b.refillIntervalMs : ℤ) - origin =
        (s.lastRefillAt - origin) + (n / b.refillIntervalMs : ℕ) * (b.refillIntervalMs : ℤ) := by
      ring
    simp only [hsum]
    exact Int.dvd_add h.aligned (Int.dvd_mul_left _ _)
  case tokens =>
    rw [refill_refill h.valid le_rfl]
    exact h.tokens

/-- The limiter knows the next boundary. -/
theorem Follows.nextRefillIn (h : b.Follows origin s e) :
  b.nextRefillIn (b.refill s e.clock) e.clock = Eager.untilBoundary b origin e.clock
  := by
  obtain ⟨n, hn⟩ := Int.le.dest h.valid.refilled
  have hmod : n % b.refillIntervalMs < b.refillIntervalMs := Nat.mod_lt n b.refillIntervalMs_pos
  have hsum : e.clock - origin = (s.lastRefillAt - origin) + n := by omega
  have hphase : (e.clock - origin) % b.refillIntervalMs = (n % b.refillIntervalMs : ℕ) := by
    rw [hsum, Int.add_emod, Int.emod_eq_zero_of_dvd h.aligned, Int.zero_add, Int.emod_emod,
      Int.natCast_mod]
  rw [Eager.untilBoundary, hphase, ← hn, nextRefillIn_refill_add h.valid.tokens_le]
  omega

theorem Follows.take (h : b.Follows origin s e)
    (hnear : e.clock - s.lastRefillAt < b.refillIntervalMs) :
  b.Follows origin { s with availableTokens := s.availableTokens - 1 }
    { e with tokens := e.tokens - 1 }
  := by
  have htokens := h.tokens
  rw [refill_eq_self hnear] at htokens
  constructor
  case valid => exact ⟨(Nat.sub_le _ _).trans h.valid.tokens_le, h.valid.refilled⟩
  case aligned => exact h.aligned
  case tokens =>
    rw [← htokens]
    exact congrArg Limiter.availableTokens
      (refill_eq_self (s := ⟨s.availableTokens - 1, s.lastRefillAt⟩) hnear)

/-- A call has the same outcome in the limiter and in the eager bucket. -/
theorem Follows.serve (h : b.Follows origin s e) (hle : e.clock ≤ now) (call : Call κ) :
  (b.serve now call s).1 = (Eager.serve b origin now call e).1 ∧
    b.Follows origin (b.serve now call s).2 (Eager.serve b origin now call e).2 ∧
    (Eager.serve b origin now call e).2.clock = now
  := by
  have hclock : (e.advance b origin now).clock = now := clock_advance hle
  have hlater := h.advance now
  have hrefilled := hlater.refill
  have hnext := hlater.nextRefillIn
  have htokens := hlater.tokens
  rw [hclock] at hrefilled hnext htokens
  have hnear : now - (b.refill s now).lastRefillAt < b.refillIntervalMs :=
    near_refill (h.valid.later hle)
  cases call with
  | allow failure =>
      cases failure with
      | some failure => exact ⟨rfl, hlater, hclock⟩
      | none =>
          simp only [TokenBucket.serve, Eager.serve, TokenBucket.take, htokens]
          split
          · refine ⟨rfl, ?_, hclock⟩
            have htaken := hrefilled.take (by rwa [hclock])
            rwa [htokens] at htaken
          · rw [hnext]
            exact ⟨rfl, hrefilled, hclock⟩
  | snapshot =>
      refine ⟨?_, hrefilled, hclock⟩
      simp only [TokenBucket.serve, Eager.serve, htokens, hnext]

/-- The calls are made one after the other, from a time on. -/
def Timed (now : ℤ) (calls : List (ℤ × Call κ)) : Prop :=
  (now :: calls.map Prod.fst).Pairwise (· ≤ ·)

theorem timed_cons {c : ℤ × Call κ} {calls : List (ℤ × Call κ)} :
  Timed now (c :: calls) ↔ now ≤ c.1 ∧ Timed c.1 calls
  := by
  simp only [Timed, List.map_cons, List.pairwise_cons, List.mem_cons]
  constructor
  · rintro ⟨hnow, hrest⟩
    exact ⟨hnow _ (.inl rfl), hrest⟩
  · rintro ⟨hle, hc, hrest⟩
    refine ⟨?_, hc, hrest⟩
    rintro time (rfl | htime)
    · exact hle
    · exact hle.trans (hc time htime)

/-- The limiter and the eager bucket have the same outcomes. -/
theorem Follows.run (h : b.Follows origin s e) {calls : List (ℤ × Call κ)}
    (htimed : Timed e.clock calls) :
  (b.run s calls).1 = Eager.run b origin e calls
  := by
  induction calls generalizing s e with
  | nil => rfl
  | cons c calls ih =>
      obtain ⟨hle, hrest⟩ := timed_cons.mp htimed
      obtain ⟨houtcome, hfollows, hclock⟩ := h.serve hle c.2
      rw [TokenBucket.run, Eager.run, houtcome, ih hfollows (by rwa [hclock])]

end Resilience.TokenBucket
