import Mathlib.Algebra.Field.Rat
import Mathlib.Data.Int.Cast.Lemmas
import Mathlib.Data.Nat.Cast.Field
import SampleTypes.Value

/-! The exact value of a number, however it is written, and when it is an integer. -/

namespace SampleTypes

namespace Binary64

def toRat (x : Binary64) : ℚ := (if x.negative then -1 else 1) * (x.significand * 2 ^ x.scale)

theorem withSign_cast (negative : Bool) (n : Nat) :
    (withSign negative n : ℚ) = (if negative then -1 else 1) * n := by
  cases negative <;> simp [withSign]

theorem sign_mul_eq_iff (negative : Bool) {a b : ℚ} :
    (if negative then -1 else 1) * a = b ↔ a = (if negative then -1 else 1) * b := by
  cases negative <;> simp [neg_eq_iff_eq_neg]

theorem dvd_of_div_eq {n d : Nat} {negative : Bool} {i : Int} (positive : 0 < d)
    (equal : (n : ℚ) / d = (if negative then -1 else 1) * i) : d ∣ n := by
  have divisor : (d : ℚ) ≠ 0 := by exact_mod_cast positive.ne'
  rw [div_eq_iff divisor] at equal
  rw [← Int.natCast_dvd_natCast]
  refine ⟨(if negative then -1 else 1) * i, ?_⟩
  rw [mul_comm]
  cases negative <;> exact_mod_cast equal

theorem toRat_of_scale {x : Binary64} {k : Nat} (scale : x.scale = .ofNat k) :
    x.toRat = withSign x.negative (x.significand * Nat.pow 2 k) := by
  rw [toRat, withSign_cast, scale]
  simp

theorem toRat_of_negScale {x : Binary64} {k : Nat} (scale : x.scale = .negSucc k) :
    x.toRat = (if x.negative then -1 else 1) * (x.significand / (Nat.pow 2 (k + 1) : Nat)) := by
  rw [toRat, scale, zpow_negSucc, div_eq_mul_inv]
  simp

theorem toInt?_eq_some {x : Binary64} {i : Int} :
    x.toInt? = some i ↔ x.isFinite = true ∧ x.toRat = i := by
  rw [toInt?]
  cases finite : x.isFinite with
  | false => simp
  | true =>
    simp only [Bool.not_true, Bool.false_eq_true, if_false, true_and]
    cases scale : x.scale with
    | ofNat k =>
      rw [toRat_of_scale scale, Int.cast_inj]
      exact Option.some_inj
    | negSucc k =>
      have positive : 0 < Nat.pow 2 (k + 1) := Nat.two_pow_pos _
      rw [toRat_of_negScale scale]
      by_cases exact : x.significand % Nat.pow 2 (k + 1) = 0
      · have divided := Nat.cast_div (K := ℚ) (Nat.dvd_of_mod_eq_zero exact) (by exact_mod_cast positive.ne')
        simp only [if_pos exact, Option.some.injEq]
        rw [← divided, ← withSign_cast, Int.cast_inj]
      · simp only [if_neg exact, reduceCtorEq, false_iff, sign_mul_eq_iff]
        intro equal
        exact exact (Nat.mod_eq_zero_of_dvd (dvd_of_div_eq positive equal))

end Binary64

namespace Value

/-- The exact value of a finite number. -/
def toRat? : Value → Option ℚ
  | .int i => some i
  | .float x => if x.isFinite then some x.toRat else none
  | _ => none

theorem number_cases {v : Value} {q : ℚ} (number : v.toRat? = some q) :
    (∃ i, v = .int i) ∨ ∃ x, v = .float x ∧ x.isFinite = true := by
  cases v with
  | int i => exact .inl ⟨i, rfl⟩
  | float x =>
    refine .inr ⟨x, rfl, ?_⟩
    by_contra infinite
    simp [toRat?, infinite] at number
  | _ => cases number

theorem toInt?_eq_some {v : Value} {i : Int} : v.toInt? = some i ↔ v.toRat? = some (i : ℚ) := by
  cases v with
  | int j => simp [toInt?, toRat?]
  | float x => simp [toInt?, toRat?, Binary64.toInt?_eq_some]
  | _ => simp [toInt?, toRat?]

theorem toInt?_congr {v w : Value} (equal : v.toRat? = w.toRat?) : v.toInt? = w.toInt? := by
  apply Option.ext
  intro i
  rw [toInt?_eq_some, toInt?_eq_some, equal]

end Value

end SampleTypes
