import SampleTypes.Number.Binary64

/-!
Decimal numbers `± digits · 10 ^ exponent` and their passage to and from doubles. `Decimal.nearest`
rounds a decimal to the nearest double. `Binary64.shortest` gives the fewest digits that round back
to a double, and of those the nearest to it; `Binary64.text` writes them.
-/

namespace SampleTypes

structure Decimal where
  negative : Bool
  digits : Nat
  exponent : Int
  deriving DecidableEq, Repr

def digitCount (n : Nat) : Nat := (Nat.toDigits 10 n).length

namespace Decimal

/-- A decimal of magnitude at least `10 ^ 310` is infinite and one below `10 ^ -330` is zero, so no
larger power of ten is ever built. -/
def nearest (d : Decimal) : Binary64 :=
  if d.digits = 0 then .ofMagnitude d.negative 0
  else
    let top := (digitCount d.digits : Int) + d.exponent
    if 311 ≤ top then .infinity d.negative
    else if top ≤ -330 then .ofMagnitude d.negative 0
    else .ofMagnitude d.negative <| match d.exponent with
      | .ofNat k => Binary64.nearestMagnitude (d.digits * Nat.pow 10 k) 1
      | .negSucc k => Binary64.nearestMagnitude d.digits (Nat.pow 10 (k + 1))

/-- Positional when the leading digit stands at `10 ^ -4` to `10 ^ 15`, with an exponent elsewhere. -/
def text (d : Decimal) : String :=
  let digits := Nat.toDigits 10 d.digits
  let point := (digits.length : Int) + d.exponent
  let zeros (n : Int) : List Char := List.replicate n.toNat '0'
  let body :=
    if point < -3 || 16 < point then
      let shown := point - 1
      let size := Nat.toDigits 10 shown.natAbs
      digits.take 1 ++ (if digits.length = 1 then [] else '.' :: digits.drop 1) ++
        'e' :: (if shown < 0 then '-' else '+') :: (if size.length < 2 then '0' :: size else size)
    else if point ≤ 0 then '0' :: '.' :: zeros (-point) ++ digits
    else if (digits.length : Int) ≤ point then digits ++ zeros (point - digits.length) ++ ['.', '0']
    else digits.take point.toNat ++ '.' :: digits.drop point.toNat
  String.ofList (if d.negative then '-' :: body else body)

end Decimal

namespace Binary64

/-- The reals that round to a positive double, in units of a quarter of its last place: from `low`
to `high`, ends included for an even significand. Below a power of two the grid is twice as fine. -/
structure Interval where
  low : Nat
  middle : Nat
  high : Nat
  closed : Bool
  den : Nat
  deriving DecidableEq, Repr

def interval (x : Binary64) : Interval :=
  let m := x.significand
  let low := if x.fraction = 0 && 1 < x.exponentField then 4 * m - 1 else 4 * m - 2
  let closed := m % 2 = 0
  match x.scale - 2 with
  | .ofNat k => ⟨low * Nat.pow 2 k, 4 * m * Nat.pow 2 k, (4 * m + 2) * Nat.pow 2 k, closed, 1⟩
  | .negSucc k => ⟨low, 4 * m, 4 * m + 2, closed, Nat.pow 2 (k + 1)⟩

def Interval.holds (i : Interval) (num den : Nat) : Bool :=
  let low := i.low * den
  let high := i.high * den
  let value := num * i.den
  if i.closed then decide (low ≤ value) && decide (value ≤ high)
  else decide (low < value) && decide (value < high)

def Interval.place (i : Interval) : Int :=
  if i.den ≤ i.middle then digitCount (i.middle / i.den)
  else
    let count := digitCount (i.den / i.middle)
    if i.den ≤ i.middle * Nat.pow 10 (count - 1) then 2 - (count : Int) else 1 - (count : Int)

/-- The point of the grid of step `10 ^ exponent` that is nearest to the double, if one rounds to it.
Of two that are as near the even one is taken. -/
def Interval.hit? (i : Interval) (exponent : Int) : Option Nat :=
  let (up, down) := match exponent with
    | .ofNat k => (Nat.pow 10 k, 1)
    | .negSucc k => (1, Nat.pow 10 (k + 1))
  let below := i.middle * down / (i.den * up)
  let first := Binary64.roundDiv (i.middle * down) (i.den * up)
  let second := if first = below then below + 1 else below
  if i.holds (first * up) down then some first
  else if i.holds (second * up) down then some second
  else none

def shortest (x : Binary64) : Decimal :=
  let i := x.interval
  let place := i.place
  let hit := (List.range 17).findSome? fun (n : Nat) =>
    let exponent := place - ((n : Int) + 1)
    (i.hit? exponent).map fun digits =>
      if digits = 10 then ⟨x.negative, 1, exponent + 1⟩ else ⟨x.negative, digits, exponent⟩
  hit.getD ⟨x.negative, 0, 0⟩

def text (nanWord infinityWord : String) (x : Binary64) : String :=
  if x.isNaN then nanWord
  else if !x.isFinite then if x.negative then "-" ++ infinityWord else infinityWord
  else if x.isZero then if x.negative then "-0.0" else "0.0"
  else x.shortest.text

end Binary64

end SampleTypes
