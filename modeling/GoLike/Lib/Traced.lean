import Mathlib.Logic.Basic

/-!
# Computations that leave a trace

A computation does things one after the other, and ends with a result or fails. What it has done
stays done when it fails.
-/

/-- A computation that has done `trace`. -/
structure Traced (κ ε α : Type) where
  trace : List κ
  outcome : Except ε α

namespace Traced

variable {κ ε α β : Type}

/-- A computation with a result that does nothing. -/
def result (a : α) : Traced κ ε α := ⟨[], .ok a⟩

/-- A computation that fails. -/
def throws (e : ε) : Traced κ ε α := ⟨[], .error e⟩

/-- A computation that does one thing. -/
def does (k : κ) : Traced κ ε Unit := ⟨[k], .ok ()⟩

/-- A computation behind things that were done. -/
def after (ks : List κ) (m : Traced κ ε α) : Traced κ ε α := ⟨ks ++ m.trace, m.outcome⟩

/-- A computation that does nothing. -/
def lift (outcome : Except ε α) : Traced κ ε α := ⟨[], outcome⟩

/-- One computation after the other. -/
def andThen (m : Traced κ ε α) (f : α → Traced κ ε β) : Traced κ ε β :=
  match m.outcome with
  | .error e => ⟨m.trace, .error e⟩
  | .ok a => ⟨m.trace ++ (f a).trace, (f a).outcome⟩

instance : Monad (Traced κ ε) where
  pure := result
  bind := andThen

/-- The computation keeps to what is said of traces that end with a result, or with a failure. -/
def Keeps (ends : List κ → α → Prop) (fails : List κ → ε → Prop) (m : Traced κ ε α) : Prop :=
  match m.outcome with
  | .ok a => ends m.trace a
  | .error e => fails m.trace e

@[simp] theorem length_after (ks : List κ) (m : Traced κ ε α) :
  (after ks m).trace.length = ks.length + m.trace.length
  := List.length_append

/-- What does nothing adds nothing to the trace. -/
theorem trace_andThen {m : Traced κ ε α} {f : α → Traced κ ε β} (h : ∀ a, (f a).trace = []) :
  (m.andThen f).trace = m.trace
  := by
  unfold andThen
  cases m.outcome with
  | ok a => simp [h]
  | error e => rfl

variable {ends : List κ → α → Prop} {fails : List κ → ε → Prop}

theorem keeps_result {a : α} (h : ends [] a) :
  Keeps ends fails (result a)
  := h

theorem keeps_throws {e : ε} (h : fails [] e) :
  Keeps ends fails (throws e : Traced κ ε α)
  := h

theorem Keeps.ok {m : Traced κ ε α} (h : Keeps ends fails m) {a : α} (houtcome : m.outcome = .ok a) :
  ends m.trace a
  := by
  unfold Keeps at h
  rwa [houtcome] at h

theorem Keeps.error {m : Traced κ ε α} (h : Keeps ends fails m) {e : ε}
    (houtcome : m.outcome = .error e) :
  fails m.trace e
  := by
  unfold Keeps at h
  rwa [houtcome] at h

theorem Keeps.mono {m : Traced κ ε α} (h : Keeps ends fails m) {ends' : List κ → α → Prop}
    {fails' : List κ → ε → Prop} (hends : ∀ t a, ends t a → ends' t a)
    (hfails : ∀ t e, fails t e → fails' t e) :
  Keeps ends' fails' m
  := by
  unfold Keeps at h ⊢
  cases houtcome : m.outcome with
  | ok a =>
      rw [houtcome] at h
      exact hends _ _ h
  | error e =>
      rw [houtcome] at h
      exact hfails _ _ h

/-- One computation after the other keeps to what follows from what both keep to. -/
theorem Keeps.andThen {m : Traced κ ε α} {f : α → Traced κ ε β} {ends' : List κ → β → Prop}
    (h : Keeps ends fails m)
    (hthen : ∀ t a, ends t a →
      Keeps (fun t' b => ends' (t ++ t') b) (fun t' e => fails (t ++ t') e) (f a)) :
  Keeps ends' fails (m.andThen f)
  := by
  unfold Traced.andThen
  cases houtcome : m.outcome with
  | ok a =>
      have hf := hthen _ _ (h.ok houtcome)
      unfold Keeps at hf ⊢
      cases hout : (f a).outcome with
      | ok | error =>
          rw [hout] at hf
          simpa only [hout] using hf
  | error e => exact h.error houtcome

end Traced
