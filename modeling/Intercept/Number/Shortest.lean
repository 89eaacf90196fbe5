import Intercept.Number.Binary

/-!
# Intercept.Number.Shortest

The fewest decimal digits that read back to a double.

1. The reals that round to a double form an interval around it, its ends
   included when the significand is even.
2. The grid of `n` significant digits has two neighbours of the value; the
   first grid with a neighbour inside the interval wins, and of two hits the
   nearer, the even one on a tie.
3. Seventeen digits always suffice; beyond them the exact value is given.
-/

namespace Intercept.Shortest

/-- Digits `d` and exponent `e` of the decimal `d * 10 ^ e`. -/
structure Decimal where
  coefficient : Nat
  exponent : Int
deriving DecidableEq, Repr

/-- Four times the ends of the interval that rounds to a positive count of units, and whether
they belong to it. The gap below a power of two is half as wide, but for the least normal one. -/
def interval (units : Nat) : Nat × Nat × Bool :=
  let step := Nat.pow 2 (Format.double.spacing units 1)
  let narrow := units = step * Nat.pow 2 52 ∧ 1 < step
  (4 * units - (if narrow then step else 2 * step), 4 * units + 2 * step, units / step % 2 = 0)

/-- Whether the decimal `c * 10 ^ e`, which is `c * one * 10 ^ e` units, lies in the interval. -/
def readsBack (ends : Nat × Nat × Bool) (c : Nat) (e : Int) : Bool :=
  let (num, den) :=
    if 0 ≤ e then (c * Extended.one * Nat.pow 10 e.toNat, 1)
    else (c * Extended.one, Nat.pow 10 (-e).toNat)
  let low := ends.1 * den
  let high := ends.2.1 * den
  if ends.2.2 then low ≤ 4 * num ∧ 4 * num ≤ high else low < 4 * num ∧ 4 * num < high

/-- The least `k` with `units` below `10 ^ k` ones, searched upward from `k`. -/
def scale (units : Nat) : Nat → Int → Int
  | 0, k => k
  | fuel + 1, k =>
    let below :=
      if 0 ≤ k then units < Nat.pow 10 k.toNat * Extended.one
      else units * Nat.pow 10 (-k).toNat < Extended.one
    if below then k else scale units fuel (k + 1)

/-- The grid neighbour of the value with `n` digits that reads back, the nearer of two. -/
def onGrid (units : Nat) (ends : Nat × Nat × Bool) (e : Int) : Option Decimal :=
  let (num, den) :=
    if 0 ≤ e then (units, Extended.one * Nat.pow 10 e.toNat)
    else (units * Nat.pow 10 (-e).toNat, Extended.one)
  let c := num / den
  match readsBack ends c e, readsBack ends (c + 1) e with
  | true, true =>
    let twice := 2 * (num % den)
    some ⟨if twice < den then c else if den < twice then c + 1
      else if c % 2 = 0 then c else c + 1, e⟩
  | true, false => some ⟨c, e⟩
  | false, true => some ⟨c + 1, e⟩
  | false, false => none

/-- Move the trailing zeros of the digits into the exponent. -/
def strip : Nat → Decimal → Decimal
  | 0, d => d
  | fuel + 1, d =>
    if d.coefficient ≠ 0 ∧ d.coefficient % 10 = 0 then
      strip fuel ⟨d.coefficient / 10, d.exponent + 1⟩
    else d

/-- The fewest digits that read back to a positive count of units. -/
def digits (units : Nat) : Decimal :=
  let ends := interval units
  let guess : Int := ((Format.bitLength units : Int) - 1075) * 30103 / 100000 - 1
  let k := scale units 8 guess
  let found := (List.range 17).findSome? fun n : Nat => onGrid units ends (k - (n + 1 : Nat))
  strip 20 (found.getD ⟨units * Nat.pow 5 1074, -1074⟩)

end Intercept.Shortest
