import Mathlib.Logic.Basic

/-!
# Computations that may fail

A sequence of computations has a result when each of them has one, and fails when one of them
fails.
-/

namespace Except

variable {ε δ α β γ : Type}

theorem ok_bind (a : α) (f : α → Except ε β) :
  ((.ok a : Except ε α) >>= f) = f a
  := rfl

theorem bind_eq_ok_iff {x : Except ε α} {f : α → Except ε β} {b : β} :
  (x >>= f) = .ok b ↔ ∃ a, x = .ok a ∧ f a = .ok b
  := by
  cases x with
  | error | ok => simp [bind, Except.bind]

theorem bind_eq_error_iff {x : Except ε α} {f : α → Except ε β} {e : ε} :
  (x >>= f) = .error e ↔ x = .error e ∨ ∃ a, x = .ok a ∧ f a = .error e
  := by
  cases x with
  | error | ok => simp [bind, Except.bind]

theorem map_eq_ok_iff {x : Except ε α} {f : α → β} {b : β} :
  x.map f = .ok b ↔ ∃ a, x = .ok a ∧ f a = b
  := by
  cases x with
  | error | ok => simp [Except.map]

theorem mapError_eq_ok_iff {x : Except ε α} {f : ε → δ} {a : α} :
  x.mapError f = .ok a ↔ x = .ok a
  := by
  cases x with
  | error e =>
      constructor
      · rintro ⟨⟩
      · rintro ⟨⟩
  | ok b =>
      constructor
      · rintro ⟨⟩
        rfl
      · rintro ⟨⟩
        rfl

/-- Computations one after the other have results when each of them has one. -/
theorem exists_mapM_eq_ok_iff {f : γ → Except ε α} {l : List γ} :
  (∃ results, l.mapM f = .ok results) ↔ ∀ c ∈ l, ∃ a, f c = .ok a
  := by
  induction l with
  | nil =>
      constructor
      · rintro - c hc
        exact absurd hc List.not_mem_nil
      · exact fun _ => ⟨[], rfl⟩
  | cons c l ih =>
      rw [List.forall_mem_cons, ← ih]
      constructor
      · rintro ⟨results, h⟩
        rw [List.mapM_cons] at h
        obtain ⟨a, ha, h⟩ := bind_eq_ok_iff.1 h
        obtain ⟨others, hothers, -⟩ := bind_eq_ok_iff.1 h
        exact ⟨⟨a, ha⟩, others, hothers⟩
      · rintro ⟨⟨a, ha⟩, others, hothers⟩
        refine ⟨a :: others, ?_⟩
        rw [List.mapM_cons, ha, hothers]
        rfl

/-- Computations one after the other fail as the first of them that fails. -/
theorem mapM_eq_error_iff {f : γ → Except ε α} {l : List γ} {e : ε} :
  l.mapM f = .error e ↔ ∃ before c after, l = before ++ c :: after ∧
    (∀ b ∈ before, ∃ a, f b = .ok a) ∧ f c = .error e
  := by
  induction l with
  | nil =>
      constructor
      · rintro ⟨⟩
      · rintro ⟨before, c, after, hl, -⟩
        exact absurd hl.symm (List.append_ne_nil_of_right_ne_nil _ (List.cons_ne_nil _ _))
  | cons c l ih =>
      rw [List.mapM_cons, bind_eq_error_iff]
      constructor
      · rintro (herror | ⟨a, ha, h⟩)
        · exact ⟨[], c, l, rfl, fun _ h => absurd h List.not_mem_nil, herror⟩
        · obtain hrest | ⟨others, -, hnever⟩ := bind_eq_error_iff.1 h
          · obtain ⟨before, d, after, rfl, hbefore, hd⟩ := ih.1 hrest
            refine ⟨c :: before, d, after, rfl, ?_, hd⟩
            exact List.forall_mem_cons.2 ⟨⟨a, ha⟩, hbefore⟩
          · cases hnever
      · rintro ⟨before, d, after, hl, hbefore, hd⟩
        cases before with
        | nil =>
            cases hl
            exact .inl hd
        | cons b before =>
            cases hl
            obtain ⟨⟨a, ha⟩, hbefore⟩ := List.forall_mem_cons.1 hbefore
            refine .inr ⟨a, ha, ?_⟩
            rw [ih.2 ⟨before, d, after, rfl, hbefore, hd⟩]
            rfl

/-! ### Agreement unless an error occurs -/

/-- The second computation is the first one, unless the first one fails with the error. -/
def AgreesUnless (e : ε) (x y : Except ε α) : Prop := x ≠ .error e → y = x

namespace AgreesUnless

variable {e : ε}

end AgreesUnless

end Except
