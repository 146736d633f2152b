import Mathlib.Data.List.Rotate
import Mathlib.Data.List.Chain

/-!
# Going round a list

An element of a list is succeeded by the next one, and the last by the first. Whoever goes round
the list takes its elements as often as they stand in it whenever as many steps are made as the
list has elements.
-/

namespace List

variable {α : Type}

/-- The second element comes after the first one when the list is gone round. -/
def Succeeds (l : List α) (a b : α) : Prop :=
  ∃ i, l[i]? = some a ∧ l[(i + 1) % l.length]? = some b

theorem succeeds_of_append (before : List α) (a b : α) (after : List α) :
  (before ++ a :: b :: after).Succeeds a b
  := by
  use before.length
  constructor
  · rw [getElem?_append_right le_rfl, Nat.sub_self, getElem?_cons_zero]
  · rw [Nat.mod_eq_of_lt (by simp), getElem?_append_right (Nat.le_add_right _ 1),
      Nat.add_sub_cancel_left]
    rfl

/-- The first element comes after the last one. -/
theorem succeeds_of_last (before : List α) (a : α) {b : α} (h : (before ++ [a]).head? = some b) :
  (before ++ [a]).Succeeds a b
  := by
  use before.length
  constructor
  · rw [getElem?_append_right le_rfl, Nat.sub_self, getElem?_cons_zero]
  · rw [length_append, length_singleton, Nat.mod_self, ← head?_eq_getElem?, h]

/-- Going round, the position is known. -/
theorem getElem?_of_isChain {l : List α} (hl : l.Nodup) {p : List α}
    (hp : p.IsChain l.Succeeds) {i : ℕ} (hi : i < l.length) (hhead : ∀ a ∈ p.head?, l[i]? = some a)
    {j : ℕ} (hj : j < p.length) :
  p[j]? = l[(i + j) % l.length]?
  := by
  induction p generalizing i j with
  | nil => exact absurd hj (Nat.not_lt_zero j)
  | cons a p ih =>
      have ha : l[i]? = some a := hhead a rfl
      cases j with
      | zero => rw [Nat.add_zero, Nat.mod_eq_of_lt hi, ha, getElem?_cons_zero]
      | succ j =>
          have hpos : 0 < l.length := Nat.zero_lt_of_lt hi
          have hnext : ∀ b ∈ p.head?, l[(i + 1) % l.length]? = some b := by
            intro b hb
            obtain ⟨k, hk, hsucc⟩ := (isChain_cons.mp hp).1 b hb
            have hkl : k < l.length := (getElem?_eq_some_iff.mp hk).1
            have hki : k = i := by
              apply hl.getElem_inj_iff.mp
              rw [(getElem?_eq_some_iff.mp hk).2, (getElem?_eq_some_iff.mp ha).2]
            rw [← hki]
            exact hsucc
          rw [getElem?_cons_succ, ih (isChain_cons.mp hp).2 (Nat.mod_lt _ hpos) hnext
            (Nat.lt_of_succ_lt_succ hj), Nat.mod_add_mod, Nat.add_right_comm, Nat.add_assoc]

/-- As many steps as the list has elements take its elements, from some place on. -/
theorem eq_rotate_of_isChain {l : List α} (hl : l.Nodup) {p : List α}
    (hp : p.IsChain l.Succeeds) (hhead : ∀ a ∈ p.head?, a ∈ l) (hlength : p.length = l.length) :
  ∃ i, p = l.rotate i
  := by
  match p with
  | [] => exact ⟨0, by rw [rotate_zero]; exact (length_eq_zero_iff.mp hlength.symm).symm⟩
  | a :: p =>
      obtain ⟨i, hi, ha⟩ := mem_iff_getElem.mp (hhead a rfl)
      use i
      apply ext_getElem?
      intro j
      by_cases hj : j < l.length
      · have hstart : ∀ b ∈ (a :: p).head?, l[i]? = some b := by
          rintro b ⟨⟩
          exact getElem?_eq_some_iff.mpr ⟨hi, ha⟩
        rw [getElem?_of_isChain hl hp hi hstart (hlength ▸ hj), Nat.add_comm i j,
          getElem?_rotate hj]
      · rw [getElem?_eq_none (by omega), getElem?_eq_none (by rw [length_rotate]; omega)]

/-- As many steps as the list has elements take each of them. -/
theorem perm_of_isChain {l : List α} (hl : l.Nodup) {p : List α}
    (hp : p.IsChain l.Succeeds) (hhead : ∀ a ∈ p.head?, a ∈ l) (hlength : p.length = l.length) :
  p.Perm l
  := by
  obtain ⟨i, rfl⟩ := eq_rotate_of_isChain hl hp hhead hlength
  exact rotate_perm l i

end List
