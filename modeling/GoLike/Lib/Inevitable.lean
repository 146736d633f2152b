import Mathlib.Order.WellFounded

/-!
# What every way to go on reaches

A predicate is inevitable at a state when the state satisfies it, or when there are steps
from the state and each of them leads to a state at which the predicate is inevitable.

Steps that decrease a measure until the predicate holds make it inevitable.
-/

variable {α β : Type}

/-- Every way to go on by `R` reaches `P`. -/
inductive Inevitable (R : α → α → Prop) (P : α → Prop) : α → Prop where
  | now {a : α} (h : P a) : Inevitable R P a
  | later {a : α} (hstep : ∃ b, R a b) (h : ∀ b, R a b → Inevitable R P b) : Inevitable R P a

namespace Inevitable

variable {R : α → α → Prop} {P : α → Prop}

/-- Some way to go on reaches what is inevitable. -/
theorem reaches {a : α} (h : Inevitable R P a) :
  ∃ b, Relation.ReflTransGen R a b ∧ P b
  := by
  induction h with
  | now h => exact ⟨_, .refl, h⟩
  | later hstep _ ih =>
      obtain ⟨b, hab⟩ := hstep
      obtain ⟨c, hbc, hc⟩ := ih b hab
      exact ⟨c, .head hab hbc, hc⟩

/-- Each step keeps an invariant and decreases a measure, until `P` holds. -/
theorem of_measure [LT β] [WellFoundedLT β] (I : α → Prop) (μ : α → β)
    (hstep : ∀ a, I a → ¬ P a → ∃ b, R a b)
    (hdecreases : ∀ a b, I a → ¬ P a → R a b → P b ∨ I b ∧ μ b < μ a) (a : α) (ha : I a) :
  Inevitable R P a
  := by
  induction hμ : μ a using WellFoundedLT.induction generalizing a with
  | ind m ih =>
      by_cases hP : P a
      · exact .now hP
      · apply Inevitable.later (hstep a ha hP)
        intro b hab
        obtain hb | ⟨hb, hlt⟩ := hdecreases a b ha hP hab
        · exact .now hb
        · exact ih (μ b) (hμ ▸ hlt) b hb rfl

end Inevitable
