import GoLike.Lib.Interleave

/-!
# Programs that keep to rules

A program holds a part of a state to itself and shares the rest. The rules of the program
say when it may send a request, and what the others may do between two of its requests. A
program that keeps to its rules can be trusted by the others after each of its requests,
and not only when it has returned.
-/

namespace Interleave

/-- The rules of a program. -/
structure Conduct (Q : Type) (R : Q → Type) (σ : Type) where
  /-- The program may send the request. -/
  sends : Q → σ → Prop
  /-- The request is served with a reply, in one step. -/
  serves : (q : Q) → σ → R q → σ → Prop
  /-- A step of the others. -/
  interferes : σ → σ → Prop

namespace Conduct

variable {Q : Type} {R : Q → Type} {σ α β ε : Type} {C : Conduct Q R σ}

variable (C) in
/-- Any number of steps of the others. -/
def Waits : σ → σ → Prop := Relation.ReflTransGen C.interferes

variable (C) in
/-- From a state on, the program sends only requests it may send, and the property holds
when it returns. -/
def Keeps (post : α → σ → Prop) : Prog Q R α → σ → Prop
  | .ret a, s => ∀ s₁, C.Waits s s₁ → post a s₁
  | .send q k, s => ∀ s₁, C.Waits s s₁ → C.sends q s₁ ∧
      ∀ r s₂, C.serves q s₁ r s₂ → Keeps post (k r) s₂
  | .unfinished, _ => True

/-! ### Steps -/

variable {post : α → σ → Prop} {p : Prog Q R α} {s s' : σ}

/-- What the others do leaves the program to its rules. -/
theorem Keeps.waits (h : C.Keeps post p s) (hwaits : C.Waits s s') :
  C.Keeps post p s'
  := by
  cases p with
  | ret | send =>
      intro s₁ hwaits'
      exact h s₁ (hwaits.trans hwaits')
  | unfinished => trivial

theorem Keeps.sends {q : Q} {k : R q → Prog Q R α} (h : C.Keeps post (.send q k) s) :
  C.sends q s
  := (h s .refl).1

/-- The program goes on when its request is served. -/
theorem Keeps.served {q : Q} {k : R q → Prog Q R α} {r : R q} (h : C.Keeps post (.send q k) s)
    (hserves : C.serves q s r s') :
  C.Keeps post (k r) s'
  := (h s .refl).2 r s' hserves

theorem Keeps.returned {a : α} (h : C.Keeps post (.ret a) s) :
  post a s
  := h s .refl

/-! ### Composition -/

theorem Keeps.bind {post' : β → σ → Prop} {f : α → Prog Q R β} (h : C.Keeps post p s)
    (hf : ∀ a s, post a s → C.Keeps post' (f a) s) :
  C.Keeps post' (p.bind f) s
  := by
  induction p generalizing s with
  | ret a => exact hf a s h.returned
  | send q k ih =>
      intro s₁ hwaits
      obtain ⟨hsends, hserved⟩ := h s₁ hwaits
      refine ⟨hsends, ?_⟩
      intro r s₂ hserves
      exact ih r (hserved r s₂ hserves)
  | unfinished => trivial

theorem Keeps.mono {post' : α → σ → Prop} (h : C.Keeps post p s)
    (hpost : ∀ a s, post a s → post' a s) :
  C.Keeps post' p s
  := by
  induction p generalizing s with
  | ret a =>
      intro s₁ hwaits
      exact hpost a s₁ (h s₁ hwaits)
  | send q k ih =>
      intro s₁ hwaits
      obtain ⟨hsends, hserved⟩ := h s₁ hwaits
      refine ⟨hsends, ?_⟩
      intro r s₂ hserves
      exact ih r (hserved r s₂ hserves)
  | unfinished => trivial

/-! ### Completion -/

variable (C) in
/-- The program returns when its requests are served one after the other. -/
inductive Completes : Prog Q R α → σ → α → σ → Prop where
  | ret {a : α} {s : σ} : Completes (.ret a) s a s
  | send {q : Q} {k : R q → Prog Q R α} {s s' s'' : σ} {r : R q} {a : α}
      (hserves : C.serves q s r s') (h : Completes (k r) s' a s'') :
      Completes (.send q k) s a s''

theorem Completes.bind {f : α → Prog Q R β} {s'' : σ} {a : α} {b : β} (h : C.Completes p s a s')
    (hf : C.Completes (f a) s' b s'') :
  C.Completes (p.bind f) s b s''
  := by
  induction h with
  | ret => exact hf
  | send hserves _ ih => exact .send hserves (ih hf)

/-! ### Programs that may throw -/

variable (C) in
/-- From a state on, the program keeps to its rules and establishes the property of its
outcome. -/
def Assures (post : Except ε α → σ → Prop) (m : Client Q R ε α) (s : σ) : Prop :=
  C.Keeps post m.run s

section

variable {post : Except ε α → σ → Prop} {s : σ}

variable {m : Client Q R ε α}

theorem Assures.mono {post' : Except ε α → σ → Prop} (h : C.Assures post m s)
    (hpost : ∀ r s, post r s → post' r s) :
  C.Assures post' m s
  := Keeps.mono h hpost

theorem assures_pure {a : α} (h : ∀ s₁, C.Waits s s₁ → post (.ok a) s₁) :
  C.Assures post (pure a) s
  := h

theorem assures_throw {e : ε} (h : ∀ s₁, C.Waits s s₁ → post (.error e) s₁) :
  C.Assures post (throw e) s
  := h

theorem assures_settle {v : Except ε α} (h : ∀ s₁, C.Waits s s₁ → post v s₁) :
  C.Assures post (settle v) s
  := h

/-- A request is served after the others have taken some steps. -/
theorem assures_request {q : Q} {post : Except ε (R q) → σ → Prop}
    (h : ∀ s₁, C.Waits s s₁ → C.sends q s₁ ∧ ∀ r s₂ s₃, C.serves q s₁ r s₂ →
      C.Waits s₂ s₃ → post (.ok r) s₃) :
  C.Assures post (request q) s
  := by
  intro s₁ hwaits
  refine ⟨(h s₁ hwaits).1, ?_⟩
  intro r s₂ hserves s₃ hwaits'
  exact (h s₁ hwaits).2 r s₂ s₃ hserves hwaits'

theorem Assures.bind {post' : Except ε β → σ → Prop} {f : α → Client Q R ε β}
    (h : C.Assures post m s) (hok : ∀ a s, post (.ok a) s → C.Assures post' (f a) s)
    (herror : ∀ e s, post (.error e) s → C.Assures post' (throw e) s) :
  C.Assures post' (m >>= f) s
  := by
  apply Keeps.bind h
  intro r s' hr
  cases r with
  | ok a => exact hok a s' hr
  | error e => exact herror e s' hr

theorem Assures.tryCatch {post' : Except ε α → σ → Prop} {handler : ε → Client Q R ε α}
    (h : C.Assures post m s) (hok : ∀ a s, post (.ok a) s → C.Assures post' (pure a) s)
    (herror : ∀ e s, post (.error e) s → C.Assures post' (handler e) s) :
  C.Assures post' (tryCatch m handler) s
  := by
  apply Keeps.bind h
  intro r s' hr
  cases r with
  | ok a => exact hok a s' hr
  | error e => exact herror e s' hr

end

variable (C) in
/-- The program returns a value when its requests are served one after the other. -/
def Returns (m : Client Q R ε α) (s : σ) (a : α) (s' : σ) : Prop :=
  C.Completes m.run s (.ok a) s'

section

variable {s s' s'' : σ}

variable {a : α}

theorem returns_pure :
  C.Returns (pure a : Client Q R ε α) s a s
  := .ret

theorem returns_settle :
  C.Returns (settle (.ok a) : Client Q R ε α) s a s
  := .ret

theorem returns_request {q : Q} {r : R q} (hserves : C.serves q s r s') :
  C.Returns (request q : Client Q R ε (R q)) s r s'
  := .send hserves .ret

theorem Returns.bind {m : Client Q R ε α} {f : α → Client Q R ε β} {b : β} (h : C.Returns m s a s')
    (hf : C.Returns (f a) s' b s'') :
  C.Returns (m >>= f) s b s''
  := Completes.bind h hf

theorem Returns.tryCatch {m : Client Q R ε α} {handler : ε → Client Q R ε α}
    (h : C.Returns m s a s') :
  C.Returns (tryCatch m handler) s a s'
  := Completes.bind h .ret

end

end Conduct

end Interleave
