import GoLike.Lib.JsNumber

/-!
# The token bucket limiter

A bucket receives tokens at every boundary of its refill interval and gives one to each
call that it allows. It is refilled only when a call or a snapshot looks at it, by all the
intervals that have passed since the boundary of its last refill.
-/

namespace Resilience

/-- What an invalid option throws. -/
inductive OptionError where
  | rangeError (message : String)
  | typeError (message : String)
  deriving DecidableEq, Repr

/-! ### Options -/

structure TokenBucketOptions where
  capacity : JsNumber
  refillTokens : JsNumber
  refillIntervalMs : JsNumber
  initialTokens : Option JsNumber

/-- The options of a limiter, when they are valid. -/
structure TokenBucket where
  capacity : ℕ
  refillTokens : ℕ
  refillIntervalMs : ℕ
  initialTokens : ℕ
  capacity_pos : 0 < capacity
  refillTokens_pos : 0 < refillTokens
  refillIntervalMs_pos : 0 < refillIntervalMs
  initialTokens_le : initialTokens ≤ capacity

/-- A number that has to be a positive safe integer. -/
def positiveInteger (value : JsNumber) (name : String) : Except OptionError {n : ℕ // 0 < n} :=
  match value.toSafeNat? with
  | none => .error (.rangeError (name ++ " must be a positive safe integer"))
  | some n =>
      if h : 0 < n then .ok ⟨n, h⟩
      else .error (.rangeError (name ++ " must be a positive safe integer"))

theorem positive_val (n : {n : ℕ // 0 < n}) : 0 < n.val
  := n.property

/-- The number of tokens at first, the capacity if it is not given. -/
def initialTokensOf (initialTokens : Option JsNumber) (capacity : ℕ) :
    Except OptionError {n : ℕ // n ≤ capacity} :=
  match initialTokens with
  | none => .ok ⟨capacity, le_rfl⟩
  | some value =>
      match value.toSafeNat? with
      | none =>
          .error (.rangeError "initialTokens must be a safe integer between 0 and capacity")
      | some n =>
          if h : n ≤ capacity then .ok ⟨n, h⟩
          else .error (.rangeError "initialTokens must be a safe integer between 0 and capacity")

/-- The options that a limiter is created with. -/
def newTokenBucketLimiter (options : TokenBucketOptions) : Except OptionError TokenBucket := do
  let capacity ← positiveInteger options.capacity "capacity"
  let refillTokens ← positiveInteger options.refillTokens "refillTokens"
  let refillIntervalMs ← positiveInteger options.refillIntervalMs "refillIntervalMs"
  let initialTokens ← initialTokensOf options.initialTokens capacity.val
  .ok ⟨capacity.val, refillTokens.val, refillIntervalMs.val, initialTokens.val,
    positive_val capacity, positive_val refillTokens, positive_val refillIntervalMs,
    initialTokens.property⟩

/-! ### The limiter -/

/-- The variables of a limiter. -/
structure Limiter where
  availableTokens : ℕ
  lastRefillAt : ℤ
  deriving DecidableEq, Repr

structure RateLimitDecision where
  allowed : Bool
  retryAfterMs : ℤ
  deriving DecidableEq, Repr

structure RateLimiterSnapshot where
  availableTokens : ℕ
  capacity : ℕ
  nextRefillInMs : ℤ
  deriving DecidableEq, Repr

/-- A call of a limiter. -/
inductive Call (κ : Type) where
  /-- The context has ended with the failure, if there is one. -/
  | allow (failure : Option κ)
  | snapshot

/-- How a call of a limiter ends. -/
inductive Outcome (κ : Type) where
  | decided (decision : RateLimitDecision)
  | captured (snapshot : RateLimiterSnapshot)
  | thrown (failure : κ)

/-- The call has been allowed. -/
def Outcome.isAllowed {κ : Type} : Outcome κ → Bool
  | .decided decision => decision.allowed
  | _ => false

namespace TokenBucket

variable (b : TokenBucket) {κ : Type}

/-- The limiter when it has been created. -/
def start (now : ℤ) : Limiter := ⟨b.initialTokens, now⟩

/-- Apply the refill intervals that have passed. -/
def refill (s : Limiter) (observedAt : ℤ) : Limiter :=
  if observedAt ≤ s.lastRefillAt then s
  else
    let intervals := (observedAt - s.lastRefillAt) / b.refillIntervalMs
    if intervals < 1 then s
    else
      { availableTokens := min b.capacity (s.availableTokens + intervals.toNat * b.refillTokens)
        lastRefillAt := s.lastRefillAt + intervals * b.refillIntervalMs }

/-- The delay until the next boundary. -/
def nextRefillIn (s : Limiter) (observedAt : ℤ) : ℤ :=
  let elapsed := max 0 (observedAt - s.lastRefillAt)
  max 0 (b.refillIntervalMs - elapsed)

/-- Take a token of a refilled limiter. -/
def take (s : Limiter) (observedAt : ℤ) : RateLimitDecision × Limiter :=
  if 0 < s.availableTokens then
    (⟨true, 0⟩, { s with availableTokens := s.availableTokens - 1 })
  else (⟨false, b.nextRefillIn s observedAt⟩, s)

/-- Serve a call when the clock shows `observedAt`. -/
def serve (observedAt : ℤ) (call : Call κ) (s : Limiter) : Outcome κ × Limiter :=
  match call with
  | .allow (some failure) => (.thrown failure, s)
  | .allow none =>
      let taken := b.take (b.refill s observedAt) observedAt
      (.decided taken.1, taken.2)
  | .snapshot =>
      let s' := b.refill s observedAt
      (.captured ⟨s'.availableTokens, b.capacity, b.nextRefillIn s' observedAt⟩, s')

/-- The outcomes of timed calls, and the limiter after them. -/
def run (s : Limiter) : List (ℤ × Call κ) → List (Outcome κ) × Limiter
  | [] => ([], s)
  | (observedAt, call) :: calls =>
      let served := b.serve observedAt call s
      let rest := run served.2 calls
      (served.1 :: rest.1, rest.2)

/-! ### Refilling -/

/-- Tokens are added, up to the capacity. -/
def accrue (intervals tokens : ℕ) : ℕ := min b.capacity (tokens + intervals * b.refillTokens)

theorem accrue_add (m n tokens : ℕ) :
  b.accrue n (b.accrue m tokens) = b.accrue (m + n) tokens
  := by
  simp only [accrue, Nat.add_mul]
  omega

theorem accrue_zero {tokens : ℕ} (h : tokens ≤ b.capacity) :
  b.accrue 0 tokens = tokens
  := by
  simp only [accrue, Nat.zero_mul]
  omega

/-- The limiter is valid at a time. -/
structure Valid (s : Limiter) (now : ℤ) : Prop where
  tokens_le : s.availableTokens ≤ b.capacity
  refilled : s.lastRefillAt ≤ now

end TokenBucket

end Resilience
