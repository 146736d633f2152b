import Mathlib.Logic.Function.Basic
import Mathlib.Logic.Relation

/-!
# Interleaved calls of a shared service

A program sends requests to a service and continues with the replies. A pool of calls is a
family of programs that share the state of one service: a step of the pool serves the
request that one call is about to send, or is a change that the service makes by itself.
The calls are interleaved in any order.

The rule for pools takes each call by itself. What the other calls and the service may do
between two requests of a call is its interference; a call is verified against any amount
of it, and what is established of the outcome must be stable under it.
-/

namespace Interleave

/-! ### Programs -/

/-- A program that sends requests of `Q`, where the reply to `q` has type `R q`. -/
inductive Prog (Q : Type) (R : Q → Type) (α : Type) : Type where
  | ret (a : α)
  | send (q : Q) (k : R q → Prog Q R α)
  /-- The program goes on, in a way that is not represented. -/
  | unfinished

section

variable {Q : Type} {R : Q → Type} {α β ε : Type}

namespace Prog

def bind : Prog Q R α → (α → Prog Q R β) → Prog Q R β
  | ret a, f => f a
  | send q k, f => send q (fun r => (k r).bind f)
  | unfinished, _ => unfinished

instance : Monad (Prog Q R) where
  pure := ret
  bind := bind

end Prog

/-- A program that may throw. -/
abbrev Client (Q : Type) (R : Q → Type) (ε : Type) : Type → Type := ExceptT ε (Prog Q R)

/-- Send a request. -/
def request (q : Q) : Client Q R ε (R q) := ExceptT.mk (.send q (fun r => .ret (.ok r)))

/-- A computation of a value or an error. -/
def settle (outcome : Except ε α) : Client Q R ε α := ExceptT.mk (.ret outcome)

/-- A program that goes on without end. -/
def unfinished : Client Q R ε α := ExceptT.mk .unfinished

/-! ### The requests of a program -/

/-- Every request that the program may send has the property. -/
def Prog.Only (K : Q → Prop) : Prog Q R α → Prop
  | .ret _ => True
  | .send q k => K q ∧ ∀ r, (k r).Only K
  | .unfinished => True

variable {K : Q → Prop}

theorem Prog.Only.bind {p : Prog Q R α} {f : α → Prog Q R β} (h : p.Only K)
    (hf : ∀ a, (f a).Only K) :
  (p.bind f).Only K
  := by
  induction p with
  | ret a => exact hf a
  | send q k ih =>
      refine ⟨h.1, ?_⟩
      intro r
      exact ih r (h.2 r)
  | unfinished => trivial

theorem Prog.Only.mono {K' : Q → Prop} {p : Prog Q R α} (h : p.Only K) (hK : ∀ q, K q → K' q) :
  p.Only K'
  := by
  induction p with
  | ret | unfinished => trivial
  | send q k ih => exact ⟨hK q h.1, fun r => ih r (h.2 r)⟩

/-- Every request that a program that may throw may send has the property. -/
def Only (K : Q → Prop) (m : Client Q R ε α) : Prop := m.run.Only K

theorem only_pure (a : α) :
  Only K (pure a : Client Q R ε α)
  := trivial

theorem only_throw (e : ε) :
  Only K (throw e : Client Q R ε α)
  := trivial

theorem only_settle (v : Except ε α) :
  Only K (settle v : Client Q R ε α)
  := trivial

theorem only_unfinished :
  Only K (unfinished : Client Q R ε α)
  := trivial

theorem only_request {q : Q} (h : K q) :
  Only K (request q : Client Q R ε (R q))
  := ⟨h, fun _ => trivial⟩

theorem Only.bind {m : Client Q R ε α} {f : α → Client Q R ε β} (h : Only K m)
    (hf : ∀ a, Only K (f a)) :
  Only K (m >>= f)
  := by
  apply Prog.Only.bind h
  intro r
  cases r with
  | ok a => exact hf a
  | error e => trivial

theorem Only.tryCatch {m : Client Q R ε α} {handler : ε → Client Q R ε α} (h : Only K m)
    (hhandler : ∀ e, Only K (handler e)) :
  Only K (tryCatch m handler)
  := by
  apply Prog.Only.bind h
  intro r
  cases r with
  | ok a => trivial
  | error e => exact hhandler e

end

/-! ### Services -/

/-- A service for the calls of `ι`, with states of `σ`. -/
structure Service (ι Q : Type) (R : Q → Type) (σ : Type) where
  /-- A request of a call is served with a reply, in one step. -/
  serves : ι → (q : Q) → σ → R q → σ → Prop
  /-- What the service does by itself. -/
  moves : σ → σ → Prop

/-- The requests that calls may send, and an invariant of the service under them. -/
structure Protocol {ι Q : Type} {R : Q → Type} {σ : Type} (S : Service ι Q R σ) where
  sends : ι → Q → Prop
  invariant : σ → Prop
  served : ∀ {i q s r s'}, invariant s → sends i q → S.serves i q s r s' → invariant s'
  moved : ∀ {s s'}, invariant s → S.moves s s' → invariant s'

namespace Protocol

variable {ι Q : Type} {R : Q → Type} {σ α β ε : Type} {S : Service ι Q R σ} (P : Protocol S)

/-- A step that is not taken by the call. -/
inductive Interferes (i : ι) : σ → σ → Prop where
  | call {j q s r s'} (hother : j ≠ i) (hinv : P.invariant s) (hsends : P.sends j q)
      (hserves : S.serves j q s r s') : Interferes i s s'
  | move {s s'} (hinv : P.invariant s) (hmoves : S.moves s s') : Interferes i s s'

/-- Any number of steps that are not taken by the call. -/
def Waits (i : ι) : σ → σ → Prop := Relation.ReflTransGen (P.Interferes i)

/-- A property of states that interference does not affect. -/
def Stable (i : ι) (K : σ → Prop) : Prop := ∀ {s s'}, P.Interferes i s s' → K s → K s'

variable {s : σ}

theorem Stable.waits {i : ι} {K : σ → Prop} (h : P.Stable i K) {s' : σ} (hwaits : P.Waits i s s')
    (hs : K s) :
  K s'
  := by
  induction hwaits with
  | refl => exact hs
  | tail _ hstep ih => exact h hstep ih

/-! ### What a call establishes -/

/-- From a state on, the call sends only requests it may send, and the property holds when
it returns. -/
def Establishes (i : ι) (post : α → σ → Prop) : Prog Q R α → σ → Prop
  | .ret a, s => post a s
  | .send q k, s => P.sends i q ∧ ∀ {s₁ r s₂}, P.Waits i s s₁ → P.invariant s₁ →
      S.serves i q s₁ r s₂ → Establishes i post (k r) s₂
  | .unfinished, _ => True

variable {P} {i : ι}

variable {post : α → σ → Prop} {p : Prog Q R α}

theorem Establishes.mono {post' : α → σ → Prop} (hpost : ∀ a s, post a s → post' a s)
    (h : P.Establishes i post p s) :
  P.Establishes i post' p s
  := by
  induction p generalizing s with
  | ret a => exact hpost a s h
  | send q k ih =>
      refine ⟨h.1, ?_⟩
      intro s₁ r s₂ hwaits hinv hserves
      exact ih r (h.2 hwaits hinv hserves)
  | unfinished => trivial

theorem Establishes.bind {post' : β → σ → Prop} {f : α → Prog Q R β} (h : P.Establishes i post p s)
    (hf : ∀ a s, post a s → P.Establishes i post' (f a) s) :
  P.Establishes i post' (p.bind f) s
  := by
  induction p generalizing s with
  | ret a => exact hf a s h
  | send q k ih =>
      refine ⟨h.1, ?_⟩
      intro s₁ r s₂ hwaits hinv hserves
      exact ih r (h.2 hwaits hinv hserves)
  | unfinished => trivial

/-- What a call establishes it also establishes when it starts later. -/
theorem Establishes.waits (hpost : ∀ a, P.Stable i (post a)) {s' : σ} (h : P.Establishes i post p s)
    (hwaits : P.Waits i s s') :
  P.Establishes i post p s'
  := by
  cases p with
  | ret a => exact Stable.waits P (hpost a) hwaits h
  | send q k =>
      refine ⟨h.1, ?_⟩
      intro s₁ r s₂ hwaits'
      exact h.2 (hwaits.trans hwaits')
  | unfinished => trivial

/-- A program that sends only requests it may send establishes the trivial property. -/
theorem establishes_only (h : p.Only (P.sends i)) :
  P.Establishes i (fun _ _ => True) p s
  := by
  induction p generalizing s with
  | ret | unfinished => trivial
  | send q k ih =>
      refine ⟨h.1, ?_⟩
      intro s₁ r s₂ _ _ _
      exact ih r (h.2 r)

/-! ### Services that do less -/

/-- A protocol with the same requests for a service that does less. -/
structure Restricts {S' : Service ι Q R σ} (P' : Protocol S') (P : Protocol S) : Prop where
  sends : ∀ {i q}, P'.sends i q ↔ P.sends i q
  invariant : ∀ {s}, P'.invariant s → P.invariant s
  serves : ∀ {i q s r s'}, S'.serves i q s r s' → S.serves i q s r s'
  moves : ∀ {s s'}, S'.moves s s' → S.moves s s'

section

variable {S' : Service ι Q R σ} {P' : Protocol S'}

variable {s : σ}

theorem Restricts.interferes (h : P'.Restricts P) {s' : σ} (hstep : P'.Interferes i s s') :
  P.Interferes i s s'
  := by
  cases hstep with
  | call hother hinv hsends hserves =>
      exact .call hother (h.invariant hinv) (h.sends.mp hsends) (h.serves hserves)
  | move hinv hmoves => exact .move (h.invariant hinv) (h.moves hmoves)

theorem Restricts.waits (h : P'.Restricts P) {s' : σ} (hwaits : P'.Waits i s s') :
  P.Waits i s s'
  := by
  induction hwaits with
  | refl => exact .refl
  | tail _ hstep ih => exact ih.tail (h.interferes hstep)

end

/-! ### Programs that may throw -/

/-- From a state on, the program establishes the property of its outcome. -/
def Ensures (P : Protocol S) (i : ι) (post : Except ε α → σ → Prop) (m : Client Q R ε α)
    (s : σ) : Prop :=
  P.Establishes i post m.run s

section

variable {post : Except ε α → σ → Prop} {s : σ}

variable {m : Client Q R ε α}

theorem Ensures.mono {post' : Except ε α → σ → Prop} (hpost : ∀ r s, post r s → post' r s)
    (h : P.Ensures i post m s) :
  P.Ensures i post' m s
  := Establishes.mono hpost h

theorem ensures_pure {a : α} (h : post (.ok a) s) :
  P.Ensures i post (pure a) s
  := h

theorem ensures_throw {e : ε} (h : post (.error e) s) :
  P.Ensures i post (throw e) s
  := h

theorem ensures_settle {v : Except ε α} (h : post v s) :
  P.Ensures i post (settle v) s
  := h

theorem ensures_unfinished :
  P.Ensures i post unfinished s
  := trivial

/-- A request is served after some interference. -/
theorem ensures_request {q : Q} {post : Except ε (R q) → σ → Prop} (hsends : P.sends i q)
    (h : ∀ {s₁ r s₂}, P.Waits i s s₁ → P.invariant s₁ → S.serves i q s₁ r s₂ →
      post (.ok r) s₂) :
  P.Ensures i post (request q) s
  := ⟨hsends, h⟩

/-- A request is served after some interference, and the program continues. -/
theorem ensures_request_bind {q : Q} {f : R q → Client Q R ε α} (hsends : P.sends i q)
    (h : ∀ {s₁ r s₂}, P.Waits i s s₁ → P.invariant s₁ → S.serves i q s₁ r s₂ →
      P.Ensures i post (f r) s₂) :
  P.Ensures i post (request q >>= f) s
  := ⟨hsends, h⟩

theorem Ensures.bind {post' : Except ε β → σ → Prop} {f : α → Client Q R ε β}
    (h : P.Ensures i post m s) (hok : ∀ a s, post (.ok a) s → P.Ensures i post' (f a) s)
    (herror : ∀ e s, post (.error e) s → post' (.error e) s) :
  P.Ensures i post' (m >>= f) s
  := by
  apply Establishes.bind h
  intro r s' hr
  cases r with
  | ok a => exact hok a s' hr
  | error e => exact herror e s' hr

theorem Ensures.tryCatch {post' : Except ε α → σ → Prop} {handler : ε → Client Q R ε α}
    (h : P.Ensures i post m s) (hok : ∀ a s, post (.ok a) s → post' (.ok a) s)
    (herror : ∀ e s, post (.error e) s → P.Ensures i post' (handler e) s) :
  P.Ensures i post' (tryCatch m handler) s
  := by
  apply Establishes.bind h
  intro r s' hr
  cases r with
  | ok a => exact hok a s' hr
  | error e => exact herror e s' hr

end

end Protocol

/-! ### Pools -/

/-- The state of a service and the programs that its calls have left to run. -/
structure Pool (ι Q : Type) (R : Q → Type) (σ α : Type) where
  state : σ
  calls : ι → Prog Q R α

section

variable {ι Q : Type} {R : Q → Type} {σ α : Type} {S : Service ι Q R σ}

namespace Protocol

/-- The invariant holds, and every call establishes its property with what it has left to
run. -/
def Verifies (P : Protocol S) (post : ι → α → σ → Prop) (pool : Pool ι Q R σ α) : Prop :=
  P.invariant pool.state ∧ ∀ i, P.Establishes i (post i) (pool.calls i) pool.state

/-- The property of a call that has returned. -/
theorem Verifies.returned {P : Protocol S} {post : ι → α → σ → Prop} {pool : Pool ι Q R σ α}
    (h : P.Verifies post pool) {i : ι} {a : α} (hret : pool.calls i = .ret a) :
  post i a pool.state
  := by
  have hi := h.2 i
  rw [hret] at hi
  exact hi

end Protocol

variable [DecidableEq ι]

variable (S) in
/-- A step of a pool. -/
inductive Pool.Step : Pool ι Q R σ α → Pool ι Q R σ α → Prop where
  | call {s s' : σ} {calls : ι → Prog Q R α} (i : ι) {q : Q} {k : R q → Prog Q R α} {r : R q}
      (hcall : calls i = .send q k) (hserves : S.serves i q s r s') :
      Step ⟨s, calls⟩ ⟨s', Function.update calls i (k r)⟩
  | move {s s' : σ} {calls : ι → Prog Q R α} (hmoves : S.moves s s') :
      Step ⟨s, calls⟩ ⟨s', calls⟩

variable (S) in
/-- A run of a pool. -/
def Pool.Reaches : Pool ι Q R σ α → Pool ι Q R σ α → Prop :=
  Relation.ReflTransGen (Pool.Step S)

namespace Protocol

variable {P : Protocol S} {post : ι → α → σ → Prop}

theorem Verifies.step (hstable : ∀ i a, P.Stable i (post i a)) {pool pool' : Pool ι Q R σ α}
    (h : P.Verifies post pool) (hstep : Pool.Step S pool pool') :
  P.Verifies post pool'
  := by
  obtain ⟨hinv, hcalls⟩ := h
  cases hstep with
  | @call s s' calls i q k r hcall hserves =>
      have hi : P.Establishes i (post i) (calls i) s := hcalls i
      rw [hcall] at hi
      refine ⟨P.served hinv hi.1 hserves, ?_⟩
      intro j
      by_cases hj : j = i
      · subst hj
        simp only [Function.update_self]
        exact hi.2 .refl hinv hserves
      · simp only [Function.update_of_ne hj]
        apply (hcalls j).waits (hstable j)
        exact .single (.call (Ne.symm hj) hinv hi.1 hserves)
  | move hmoves =>
      refine ⟨P.moved hinv hmoves, ?_⟩
      intro j
      apply (hcalls j).waits (hstable j)
      exact .single (.move hinv hmoves)

/-- Every call of a pool establishes its property, whatever the order of the steps. -/
theorem Verifies.reaches (hstable : ∀ i a, P.Stable i (post i a)) {pool pool' : Pool ι Q R σ α}
    (h : P.Verifies post pool) (hrun : Pool.Reaches S pool pool') :
  P.Verifies post pool'
  := by
  induction hrun with
  | refl => exact h
  | tail _ hstep ih => exact ih.step hstable hstep

end Protocol

end

end Interleave
