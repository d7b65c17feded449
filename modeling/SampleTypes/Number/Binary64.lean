/-!
IEEE 754 double precision numbers, held as their 64 bits. A finite number is exactly
`± significand · 2 ^ scale`; `toInt?` is its value when that is an integer.
-/

namespace SampleTypes

structure Binary64 where
  bits : UInt64
  deriving DecidableEq, Repr

namespace Binary64

def negative (x : Binary64) : Bool := decide (Nat.pow 2 63 ≤ x.bits.toNat)

def exponentField (x : Binary64) : Nat := x.bits.toNat / Nat.pow 2 52 % Nat.pow 2 11

def fraction (x : Binary64) : Nat := x.bits.toNat % Nat.pow 2 52

def isFinite (x : Binary64) : Bool := x.exponentField != 2047

def isNaN (x : Binary64) : Bool := x.exponentField == 2047 && x.fraction != 0

def isZero (x : Binary64) : Bool := x.exponentField == 0 && x.fraction == 0

def significand (x : Binary64) : Nat :=
  if x.exponentField = 0 then x.fraction else x.fraction + Nat.pow 2 52

def scale (x : Binary64) : Int := max (x.exponentField : Int) 1 - 1075

def withSign (negative : Bool) (n : Nat) : Int := if negative then -(n : Int) else n

def toInt? (x : Binary64) : Option Int :=
  if !x.isFinite then none
  else match x.scale with
    | .ofNat k => some (withSign x.negative (x.significand * Nat.pow 2 k))
    | .negSucc k =>
      if x.significand % Nat.pow 2 (k + 1) = 0 then
        some (withSign x.negative (x.significand / Nat.pow 2 (k + 1)))
      else none

def ofMagnitude (negative : Bool) (magnitude : Nat) : Binary64 :=
  ⟨UInt64.ofNat (magnitude + if negative then Nat.pow 2 63 else 0)⟩

def infinityMagnitude : Nat := 2047 * Nat.pow 2 52

def infinity (negative : Bool) : Binary64 := ofMagnitude negative infinityMagnitude

def nan : Binary64 := ofMagnitude false (infinityMagnitude + Nat.pow 2 51)

/-- `num / den` to the nearest integer, a half to the even one. -/
def roundDiv (num den : Nat) : Nat :=
  let q := num / den
  let r := num % den
  if 2 * r < den then q else if den < 2 * r then q + 1 else q + q % 2

/-- `2 ^ k ≤ num / den`. -/
def reaches (num den : Nat) : (k : Int) → Bool
  | .ofNat k => decide (den * Nat.pow 2 k ≤ num)
  | .negSucc k => decide (den ≤ num * Nat.pow 2 (k + 1))

/-- The magnitude bits of the double nearest to the positive rational `num / den`. The quotient is
rounded on the grid of its binade, and a carry out of the significand raises the exponent field. -/
def nearestMagnitude (num den : Nat) : Nat :=
  let guess : Int := (num.log2 : Int) - den.log2
  let top := if reaches num den guess then guess else guess - 1
  let step := max (top - 52) (-1074)
  let steps := match step with
    | .ofNat k => roundDiv num (den * Nat.pow 2 k)
    | .negSucc k => roundDiv (num * Nat.pow 2 (k + 1)) den
  min (steps + (step + 1074).toNat * Nat.pow 2 52) infinityMagnitude

end Binary64

end SampleTypes
