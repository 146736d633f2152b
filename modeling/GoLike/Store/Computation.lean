import GoLike.Store.Record

/-!
# Computations of a Store

The operations of a provider that holds its state in memory update this state and may
throw. A computation that throws keeps the updates made before it threw.
-/

namespace Store

/-- A computation that updates a state of type `σ` and may throw. -/
abbrev StoreM (σ : Type) : Type → Type := ExceptT StoreError (StateM σ)

/-- A validation, as a computation that leaves the state alone. -/
def check {σ α : Type} (validation : Except StoreError α) : StoreM σ α :=
  ExceptT.mk (pure validation)

/-- Run a computation from a state. -/
def StoreM.exec {σ α : Type} (m : StoreM σ α) (s : σ) : Except StoreError α × σ :=
  (m.run).run s

section

variable {σ α β : Type} (s : σ)

@[simp]
theorem exec_pure (a : α) :
  StoreM.exec (pure a) s = (.ok a, s)
  := rfl

@[simp]
theorem exec_throw (e : StoreError) :
  StoreM.exec (throw e : StoreM σ α) s = (.error e, s)
  := rfl

@[simp]
theorem exec_check (v : Except StoreError α) :
  StoreM.exec (check v) s = (v, s)
  := rfl

@[simp]
theorem exec_set (s' : σ) :
  StoreM.exec (set s' : StoreM σ PUnit) s = (.ok ⟨⟩, s')
  := rfl

theorem exec_bind (m : StoreM σ α) (f : α → StoreM σ β) :
  (m >>= f).exec s =
    match m.exec s with
    | (.ok a, s') => (f a).exec s'
    | (.error e, s') => (.error e, s')
  := by
  have h : (m >>= f).exec s = (ExceptT.bindCont f (m.exec s).1).run (m.exec s).2 := rfl
  rw [h]
  cases m.exec s with
  | mk r s' =>
      cases r with
      | ok | error => rfl

@[simp]
theorem exec_get_bind (f : σ → StoreM σ α) :
  StoreM.exec (get >>= f) s = (f s).exec s
  := by
  rw [exec_bind]
  rfl

@[simp]
theorem exec_set_bind (s' : σ) (f : PUnit → StoreM σ α) :
  StoreM.exec (set s' >>= f) s = (f ⟨⟩).exec s'
  := by
  rw [exec_bind]
  rfl

theorem exec_map (m : StoreM σ α) (f : α → β) :
  (f <$> m).exec s = ((m.exec s).1.map f, (m.exec s).2)
  := by
  rw [← bind_pure_comp, exec_bind]
  cases m.exec s with
  | mk r s' =>
      cases r with
      | ok | error => rfl

/-- The outcome of a validation that leads to a transition. -/
def after (validation : Except StoreError α) (transition : α → Except StoreError β × σ) :
    Except StoreError β × σ :=
  match validation with
  | .ok a => transition a
  | .error e => (.error e, s)

@[simp]
theorem after_ok (a : α) (transition : α → Except StoreError β × σ) :
  after s (.ok a) transition = transition a
  := rfl

@[simp]
theorem after_error (e : StoreError) (transition : α → Except StoreError β × σ) :
  after s (.error e) transition = (.error e, s)
  := rfl

theorem after_bind {γ : Type} (v : Except StoreError α) (f : α → Except StoreError β)
    (transition : β → Except StoreError γ × σ) :
  after s (v >>= f) transition = after s v (fun a => after s (f a) transition)
  := by
  cases v with
  | ok | error => rfl

theorem after_congr {v : Except StoreError α} {f g : α → Except StoreError β × σ}
    (h : ∀ a, v = .ok a → f a = g a) :
  after s v f = after s v g
  := by
  cases v with
  | ok a => exact h a rfl
  | error e => rfl

theorem exec_check_bind (v : Except StoreError α) (f : α → StoreM σ β) :
  (check v >>= f).exec s = after s v (fun a => (f a).exec s)
  := by
  rw [exec_bind, exec_check]
  cases v with
  | ok | error => rfl

/-- A property of the failures of the validation, and of what the transition leads to, is a
property of the outcome. -/
theorem after_outcome {P : Except StoreError β × σ → Prop} {v : Except StoreError α}
    {transition : α → Except StoreError β × σ} (he : ∀ e, P (.error e, s))
    (h : ∀ a, v = .ok a → P (transition a)) :
  P (after s v transition)
  := by
  cases v with
  | ok a => exact h a rfl
  | error e => exact he e

end

end Store
