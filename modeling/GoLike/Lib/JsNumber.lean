import Mathlib.Data.Rat.Defs
import Mathlib.Data.Int.Order.Basic

/-!
# Numbers

A number is not-a-number, one of the two infinities, negative zero, or a finite number,
represented by the rational it stands for; the rational `0` represents positive zero.
Arithmetic that rounds is not modelled, since the modelled code adds and compares only
integers of magnitude below `2 ^ 53`, on which the operations are exact.
-/

/-- A number. -/
inductive JsNumber where
  | nan
  | infinity (negative : Bool)
  | negZero
  | finite (q : ℚ)
  deriving DecidableEq

namespace JsNumber

/-- The largest integer below which every integer is represented exactly, `2 ^ 53 - 1`. -/
def MaxSafeInteger : ℕ := 9007199254740991

/-- The number of an integer. -/
def ofInt (n : ℤ) : JsNumber := finite (Rat.ofInt n)

/-- The number of a natural number. -/
def ofNat (n : ℕ) : JsNumber := ofInt n

/-- The rational a finite number stands for. -/
def toRat? : JsNumber → Option ℚ
  | nan | infinity _ => none
  | negZero => some 0
  | finite q => some q

/-- The number is finite and not negative. -/
def isFiniteNonnegative (x : JsNumber) : Bool := x.toRat?.any (fun q => 0 ≤ q)

/-- The first number is at most the second one. -/
def le : JsNumber → JsNumber → Bool
  | nan, _ => false
  | _, nan => false
  | infinity true, _ => true
  | _, infinity false => true
  | x, y => (x.toRat?.bind (fun p => y.toRat?.map (fun q => decide (p ≤ q)))).getD false

/-- The least of two numbers. -/
def min (x y : JsNumber) : JsNumber :=
  if x = nan ∨ y = nan then nan else if x.le y then x else y

/-- The integer a number stands for, when the number is a safe integer. -/
def toSafeInteger? : JsNumber → Option ℤ
  | nan | infinity _ => none
  | negZero => some 0
  | finite q => if q.den = 1 ∧ q.num.natAbs ≤ MaxSafeInteger then some q.num else none

/-- The natural number a number stands for, when it is a safe integer and not negative. -/
def toSafeNat? (x : JsNumber) : Option ℕ :=
  match x.toSafeInteger? with
  | some (.ofNat n) => some n
  | _ => none

theorem toSafeInteger?_ofNat {n : ℕ} (h : n ≤ MaxSafeInteger) :
  (ofNat n).toSafeInteger? = some (n : ℤ)
  := by
  simp [ofNat, ofInt, toSafeInteger?, Rat.ofInt, h]

/-- A natural number in the safe range is read back from its number. -/
theorem toSafeNat?_ofNat {n : ℕ} (h : n ≤ MaxSafeInteger) :
  (ofNat n).toSafeNat? = some n
  := by
  rw [toSafeNat?, toSafeInteger?_ofNat h]

theorem le_of_toSafeInteger? {x : JsNumber} {i : ℤ} (h : x.toSafeInteger? = some i) :
  i.natAbs ≤ MaxSafeInteger
  := by
  cases x with
  | nan | infinity => cases h
  | negZero =>
      cases h
      exact Nat.zero_le _
  | finite q =>
      simp only [toSafeInteger?] at h
      split at h
      · rename_i hq
        cases h
        exact hq.2
      · cases h

theorem toSafeInteger?_of_toSafeNat? {x : JsNumber} {n : ℕ} (h : x.toSafeNat? = some n) :
  x.toSafeInteger? = some (n : ℤ)
  := by
  rw [toSafeNat?] at h
  split at h
  · rename_i m hm
    cases h
    exact hm
  · cases h

/-- A natural number read from a number is in the safe range. -/
theorem le_of_toSafeNat? {x : JsNumber} {n : ℕ} (h : x.toSafeNat? = some n) :
  n ≤ MaxSafeInteger
  := le_of_toSafeInteger? (toSafeInteger?_of_toSafeNat? h)

/-- Only the natural number of a number is read back from it. -/
theorem eq_of_toSafeNat?_ofNat {m n : ℕ} (h : (ofNat m).toSafeNat? = some n) :
  n = m
  := by
  have hsafe := toSafeInteger?_of_toSafeNat? h
  simp only [ofNat, ofInt, Rat.ofInt, toSafeInteger?] at hsafe
  split at hsafe
  · cases hsafe
    rfl
  · cases hsafe

end JsNumber
