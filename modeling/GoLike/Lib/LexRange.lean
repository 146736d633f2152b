import Mathlib.Data.List.Lex
import Mathlib.Order.Cover

/-!
# Ranges of lists in the lexicographic order

The lists that begin with a given list form a range of the lexicographic order, which ends
where the last element is replaced by its successor; and appending the least element gives
the immediate successor of a list.
-/

namespace LexRange

theorem prefix_of_cons {α : Type*} {a : α} {l m : List α} :
  a :: l <+: m ↔ ∃ m', m = a :: m' ∧ l <+: m'
  := by
  cases m with
  | nil => simp
  | cons b m =>
      rw [List.cons_prefix_cons]
      constructor
      · rintro ⟨rfl, h⟩
        exact ⟨m, rfl, h⟩
      · rintro ⟨m', heq, h⟩
        cases heq
        exact ⟨rfl, h⟩

variable {α : Type*} [LinearOrder α]

theorem cons_le_cons_iff {a b : α} {l m : List α} :
  a :: l ≤ b :: m ↔ a < b ∨ a = b ∧ l ≤ m
  := by
  rw [← not_lt, List.cons_lt_cons_iff, ← not_lt (a := m)]
  constructor
  · intro h
    obtain hab | hab | hab := lt_trichotomy a b
    · exact Or.inl hab
    · subst hab
      exact Or.inr ⟨rfl, fun hlt => h (Or.inr ⟨rfl, hlt⟩)⟩
    · exact absurd (Or.inl hab) h
  · rintro (hab | ⟨rfl, hle⟩)
    · rintro (hba | ⟨rfl, -⟩)
      · exact lt_asymm hab hba
      · exact lt_irrefl _ hab
    · rintro (hlt | ⟨-, hlt⟩)
      · exact lt_irrefl _ hlt
      · exact hle hlt

theorem nil_le (l : List α) :
  [] ≤ l
  := by
  rw [← not_lt]
  exact List.not_lt_nil l

/-- The range from a list to where its last element is replaced by the next one are the lists
that begin with it. -/
theorem mem_range_iff {a b : α} (h : a ⋖ b) (l m : List α) :
  l ++ [a] ≤ m ∧ m < l ++ [b] ↔ l ++ [a] <+: m
  := by
  induction l generalizing m with
  | nil =>
      rw [List.nil_append, List.nil_append, prefix_of_cons]
      cases m with
      | nil =>
          simp only [reduceCtorEq, false_and, exists_false, iff_false, not_and]
          intro hle
          exact absurd (List.nil_lt_cons a []) (not_lt.mpr hle)
      | cons c m =>
          rw [cons_le_cons_iff, List.cons_lt_cons_iff]
          constructor
          · rintro ⟨hac | ⟨rfl, -⟩, hcb | ⟨rfl, hm⟩⟩
            · exact absurd hcb (h.2 hac)
            · exact absurd hm (List.not_lt_nil m)
            · exact ⟨m, rfl, List.nil_prefix⟩
            · exact absurd hm (List.not_lt_nil m)
          · rintro ⟨m', heq, -⟩
            cases heq
            exact ⟨Or.inr ⟨rfl, nil_le m⟩, Or.inl h.1⟩
  | cons d l ih =>
      rw [List.cons_append, List.cons_append, prefix_of_cons]
      cases m with
      | nil =>
          simp only [reduceCtorEq, false_and, exists_false, iff_false, not_and]
          intro hle
          exact absurd (List.nil_lt_cons d _) (not_lt.mpr hle)
      | cons c m =>
          rw [cons_le_cons_iff, List.cons_lt_cons_iff]
          constructor
          · rintro ⟨hdc | ⟨rfl, hle⟩, hcd | ⟨hcd, hlt⟩⟩
            · exact absurd hcd (lt_asymm hdc)
            · subst hcd
              exact absurd hdc (lt_irrefl _)
            · exact absurd hcd (lt_irrefl _)
            · exact ⟨m, rfl, (ih m).mp ⟨hle, hlt⟩⟩
          · rintro ⟨m', heq, hstart⟩
            cases heq
            obtain ⟨hle, hlt⟩ := (ih m).mpr hstart
            exact ⟨Or.inr ⟨rfl, hle⟩, Or.inr ⟨rfl, hlt⟩⟩

/-- Appending the least element gives the next list. -/
theorem append_bot_le_iff [OrderBot α] (l m : List α) :
  l ++ [⊥] ≤ m ↔ l < m
  := by
  induction l generalizing m with
  | nil =>
      cases m with
      | nil =>
          rw [List.nil_append, ← not_lt]
          simp
      | cons c m =>
          rw [List.nil_append, cons_le_cons_iff]
          simp only [List.nil_lt_cons, iff_true]
          obtain hlt | heq := (bot_le (a := c)).lt_or_eq
          · exact Or.inl hlt
          · exact Or.inr ⟨heq, nil_le m⟩
  | cons d l ih =>
      cases m with
      | nil =>
          rw [List.cons_append, ← not_lt]
          simp
      | cons c m => rw [List.cons_append, cons_le_cons_iff, List.cons_lt_cons_iff, ih]

/-- What is less at the first difference is less. -/
theorem append_lt_append {l m : List α} (h : l < m) (hstart : ¬ l <+: m) (l' m' : List α) :
  l ++ l' < m ++ m'
  := by
  induction l generalizing m with
  | nil => exact absurd List.nil_prefix hstart
  | cons a l ih =>
      cases m with
      | nil => exact absurd h (List.not_lt_nil _)
      | cons b m =>
          rw [List.cons_append, List.cons_append, List.cons_lt_cons_iff]
          obtain hlt | ⟨rfl, hlt⟩ := List.cons_lt_cons_iff.mp h
          · exact Or.inl hlt
          · refine Or.inr ⟨rfl, ih hlt ?_⟩
            intro hl
            exact hstart (List.cons_prefix_cons.mpr ⟨rfl, hl⟩)

/-- A code by lists keeps the lexicographic order when it keeps that of the elements and no
code of an element begins with that of a greater one. -/
theorem flatMap_lt_iff {β : Type*} [LinearOrder β] {code : β → List α}
    (hnil : ∀ b, code b ≠ []) (hcode : ∀ b c, b < c → code b < code c ∧ ¬ code b <+: code c)
    (l m : List β) :
  l.flatMap code < m.flatMap code ↔ l < m
  := by
  have hmono : ∀ l m : List β, l < m → l.flatMap code < m.flatMap code := by
    intro l
    induction l with
    | nil =>
        intro m hm
        cases m with
        | nil => exact absurd hm (lt_irrefl _)
        | cons c m =>
            rw [List.flatMap_nil, List.flatMap_cons]
            apply lt_of_le_of_ne (nil_le _)
            intro heq
            exact hnil c (List.append_eq_nil_iff.mp heq.symm).1
    | cons b l ih =>
        intro m hm
        cases m with
        | nil => exact absurd hm (List.not_lt_nil _)
        | cons c m =>
            rw [List.flatMap_cons, List.flatMap_cons]
            obtain hlt | ⟨rfl, hlt⟩ := List.cons_lt_cons_iff.mp hm
            · obtain ⟨hless, hno⟩ := hcode b c hlt
              exact append_lt_append hless hno _ _
            · exact List.append_left_lt (ih m hlt)
  constructor
  · intro h
    obtain hlm | rfl | hml := lt_trichotomy l m
    · exact hlm
    · exact absurd h (lt_irrefl _)
    · exact absurd (hmono m l hml) (lt_asymm h)
  · exact hmono l m

end LexRange
