import GoLike.Lib.JsString

/-!
# Comparing strings by code point

Two strings are compared by walking over them code point by code point. The walk orders all strings
as their code points are ordered, lone surrogates included.
-/

namespace JsString

/-- The code point at an index of a string. -/
def codePointAt (s : JsString) (index : ℕ) : ℕ :=
  match s.units.drop index with
  | [] => 0
  | [u] => u.toNat
  | u :: v :: _ => if isHigh u && isLow v then combine u v else u.toNat

/-- The number of units of a code point. -/
def pointWidth (point : ℕ) : ℕ := if point > 0xffff then 2 else 1

theorem pointWidth_pos (point : ℕ) :
  0 < pointWidth point
  := by
  rw [pointWidth]
  split
  · exact Nat.zero_lt_two
  · exact Nat.one_pos

/-- Compare two strings from two indexes on. -/
def compareFrom (left right : JsString) (leftIndex rightIndex : ℕ) : ℤ :=
  if h : leftIndex < left.units.length ∧ rightIndex < right.units.length then
    let leftPoint := codePointAt left leftIndex
    let rightPoint := codePointAt right rightIndex
    if leftPoint < rightPoint then -1
    else if leftPoint > rightPoint then 1
    else
      compareFrom left right (leftIndex + pointWidth leftPoint) (rightIndex + pointWidth rightPoint)
  else if leftIndex < left.units.length then 1
  else if rightIndex < right.units.length then -1
  else 0
termination_by left.units.length - leftIndex
decreasing_by
  have := pointWidth_pos (codePointAt left leftIndex)
  omega

/-- Compare two strings lexicographically by code point. -/
def compareCodePoints (left right : JsString) : ℤ := compareFrom left right 0 0

/-! ### The order of code points -/

theorem combine_gt (u v : UInt16) :
  combine u v > 0xffff
  := by
  have hlarge : 0x10000 ≤ combine u v := Nat.le_add_right_of_le (Nat.le_add_right _ _)
  exact hlarge

/-- What is left of a string begins with the code point at the index. -/
theorem pointsOf_drop {s : JsString} {index : ℕ} (h : index < s.units.length) :
  pointsOf (s.units.drop index) =
    codePointAt s index :: pointsOf (s.units.drop (index + pointWidth (codePointAt s index)))
  := by
  have hsmall : ∀ u : UInt16, pointWidth u.toNat = 1 := by
    intro u
    have hlt := u.toNat_lt
    rw [pointWidth, if_neg (by omega)]
  rw [codePointAt]
  cases hdrop : s.units.drop index with
  | nil =>
      rw [List.drop_eq_nil_iff] at hdrop
      omega
  | cons u rest =>
      have hnext : ∀ n, s.units.drop (index + n) = (u :: rest).drop n := by
        intro n
        rw [← hdrop, List.drop_drop]
      cases rest with
      | nil =>
          dsimp only
          rw [hsmall, hnext]
          rfl
      | cons v rest =>
          dsimp only
          by_cases hpair : (isHigh u && isLow v) = true
          · rw [if_pos hpair, pointWidth, if_pos (combine_gt u v), hnext, pointsOf, if_pos hpair]
            rfl
          · rw [if_neg hpair, hsmall, hnext, pointsOf, if_neg hpair]
            rfl

/-- The number that stands for the outcome of a comparison. -/
def signOf : Ordering → ℤ
  | .lt => -1
  | .eq => 0
  | .gt => 1

theorem compare_cons_lt {p q : ℕ} (h : p < q) (ps qs : List ℕ) :
  compareOfLessAndEq (p :: ps) (q :: qs) = .lt
  := by
  simp [compareOfLessAndEq, List.cons_lt_cons_iff, h]

theorem compare_cons_gt {p q : ℕ} (h : p > q) (ps qs : List ℕ) :
  compareOfLessAndEq (p :: ps) (q :: qs) = .gt
  := by
  have hlt : ¬ p < q := by omega
  have hne : p ≠ q := by omega
  simp [compareOfLessAndEq, List.cons_lt_cons_iff, hlt, hne]

theorem compare_cons_eq {p q : ℕ} (h : p = q) (ps qs : List ℕ) :
  compareOfLessAndEq (p :: ps) (q :: qs) = compareOfLessAndEq ps qs
  := by
  simp [compareOfLessAndEq, h]

/-- The walk compares the code points that are left. -/
theorem compareFrom_eq (left right : JsString) (leftIndex rightIndex : ℕ) :
  compareFrom left right leftIndex rightIndex =
    signOf (compareOfLessAndEq (pointsOf (left.units.drop leftIndex))
      (pointsOf (right.units.drop rightIndex)))
  := by
  fun_induction compareFrom left right leftIndex rightIndex with
  | case1 i j h p q hlt => rw [pointsOf_drop h.1, pointsOf_drop h.2, compare_cons_lt hlt, signOf]
  | case2 i j h p q hlt hgt =>
      rw [pointsOf_drop h.1, pointsOf_drop h.2, compare_cons_gt hgt, signOf]
  | case3 i j h p q hlt hgt ih =>
      have hpoint : p = q := le_antisymm (not_lt.1 hgt) (not_lt.1 hlt)
      rw [ih, pointsOf_drop h.1, pointsOf_drop h.2, ← compare_cons_eq hpoint]
  | case4 i j h hleft =>
      have hright : right.units.drop j = [] := by
        rw [List.drop_eq_nil_iff]
        omega
      rw [pointsOf_drop hleft, hright]
      rfl
  | case5 i j h hleft hright =>
      have hdrop : left.units.drop i = [] := by
        rw [List.drop_eq_nil_iff]
        omega
      rw [hdrop, pointsOf_drop hright]
      rfl
  | case6 i j h hleft hright =>
      have hdrop : left.units.drop i = [] := by
        rw [List.drop_eq_nil_iff]
        omega
      have hdrop' : right.units.drop j = [] := by
        rw [List.drop_eq_nil_iff]
        omega
      rw [hdrop, hdrop']
      rfl

/-- Strings are compared as their code points are ordered. -/
theorem compareCodePoints_eq (left right : JsString) :
  compareCodePoints left right = signOf (compareOfLessAndEq left right)
  := by
  rw [compareCodePoints, compareFrom_eq, List.drop_zero, List.drop_zero]
  have hpoints : compareOfLessAndEq left.codePoints right.codePoints =
      compareOfLessAndEq left right := by
    simp only [compareOfLessAndEq, lt_iff, codePoints_injective.eq_iff]
  rw [← hpoints]
  rfl

theorem compareCodePoints_lt_iff {left right : JsString} :
  compareCodePoints left right < 0 ↔ left < right
  := by
  rw [compareCodePoints_eq, compareOfLessAndEq]
  split
  · rename_i h
    simp [signOf, h]
  · rename_i h
    split
    · simp [signOf, h]
    · simp [signOf, h]

theorem compareCodePoints_gt_iff {left right : JsString} :
  0 < compareCodePoints left right ↔ right < left
  := by
  rw [compareCodePoints_eq, compareOfLessAndEq]
  split
  · rename_i h
    simp [signOf, h.le]
  · rename_i h
    split
    · rename_i heq
      simp [signOf, heq]
    · rename_i heq
      have hgt := lt_of_le_of_ne (not_lt.mp h) (Ne.symm heq)
      simp [signOf, hgt]

theorem compareCodePoints_eq_zero_iff {left right : JsString} :
  compareCodePoints left right = 0 ↔ left = right
  := by
  rw [compareCodePoints_eq, compareOfLessAndEq]
  split
  · rename_i h
    simp [signOf, h.ne]
  · split
    · rename_i heq
      simp [signOf, heq]
    · rename_i heq
      simp [signOf, heq]

theorem compareCodePoints_le_iff {left right : JsString} :
  compareCodePoints left right ≤ 0 ↔ left ≤ right
  := by
  rw [← not_lt, compareCodePoints_gt_iff, not_lt]

end JsString
