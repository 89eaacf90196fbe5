import Intercept.Number.Numeral
import Intercept.Number.Shortest

/-!
# Intercept.Text.JsonNumber

Numbers of JSON text.

Reading:

1. An integer from `-2 ^ 63` to `2 ^ 64 - 1` without point or exponent is
   kept exactly. All else is a double, and so is `-0`.
2. A double is read from the longest run of digits that fits 64 bits: further
   digits before the point count as zeros, further ones behind it are dropped.
   The significand is rounded to a double and multiplied or divided once by
   the double nearest to the power of ten.
3. A magnitude beyond the greatest double is refused; one below the least is
   zero.

Writing: the fewest digits that read back, positional from `10 ^ -5` up to
below `10 ^ 16` and with at least one digit behind the point, otherwise with
one digit before the point and an exponent with its sign.
-/

namespace Intercept.JsonNumber

/-! ## Reading -/

/-- The greatest significand that is kept exactly. -/
def maxSignificand : Nat := UInt64.size - 1

/-- Digits before the point: the significand of those that fit, and how many did not. -/
def whole (n : Nat) : List Nat → Nat × Nat
  | [] => (n, 0)
  | d :: ds => if n * 10 + d ≤ maxSignificand then whole (n * 10 + d) ds else (n, ds.length + 1)

/-- Digits behind the point: the significand with those that fit, and how many they are. -/
def fraction (n : Nat) : List Nat → Nat × Nat
  | [] => (n, 0)
  | d :: ds =>
    if n * 10 + d ≤ maxSignificand then
      let (n, count) := fraction (n * 10 + d) ds
      (n, count + 1)
    else (n, 0)

/-- The double nearest to `10 ^ k`, in units. -/
def power (k : Nat) : Nat := (Format.double.roundMagnitude (Nat.pow 10 k * Extended.one) 1).getD 0

/-- A magnitude in units times `10 ^ e`, with one rounding for each factor of at most `10 ^ 308`. -/
def scale : Nat → Nat → Int → Option Nat
  | 0, units, _ => some units
  | fuel + 1, units, e =>
    if e.natAbs ≤ 308 then
      if 0 ≤ e then Format.double.roundMagnitude (units * power e.toNat) Extended.one
      else Format.double.roundMagnitude (units * Extended.one) (power e.natAbs)
    else if units = 0 then some 0
    else if 0 ≤ e then none
    else do scale fuel (← Format.double.roundMagnitude (units * Extended.one) (power 308)) (e + 308)

/-- The double for a significand and an exponent; there is none beyond the greatest. -/
def double? (negative : Bool) (significand : Nat) (e : Int) : Option Binary64 := do
  let units ← scale 3 ((Format.double.roundMagnitude (significand * Extended.one) 1).getD 0) e
  return Binary64.ofExtended negative (.finite (if negative then -(units : Int) else units))

/-- An integer or a double. -/
inductive Parsed where
  | int (i : Int)
  | real (x : Binary64)
deriving DecidableEq, Repr

/-- The number behind its sign at the front of a text, and what follows it. -/
def unsigned? (negative : Bool) (cs : List Char) : Option (Parsed × List Char) := do
  let (ds, rest) := Numeral.digits cs
  if ds = [] ∨ (ds.head? = some 0 ∧ 1 < ds.length) then none
  let (n, skipped) := whole 0 ds
  match rest with
  | '.' :: behind =>
    let (fs, rest) := Numeral.digits behind
    if fs = [] then none
    let (n, kept) := fraction n fs
    let (e, rest) ← Numeral.exponent? rest
    return (.real (← double? negative n (skipped - kept + e)), rest)
  | _ =>
    let (e, after) ← Numeral.exponent? rest
    if after.length < rest.length ∨ skipped ≠ 0 then
      return (.real (← double? negative n (skipped + e)), after)
    else if negative ∧ (n = 0 ∨ Nat.pow 2 63 < n) then
      return (.real (← double? true n 0), after)
    else return (.int (if negative then -(n : Int) else n), after)

/-- The number at the front of a text, and what follows it. -/
def read? : List Char → Option (Parsed × List Char)
  | '-' :: cs => unsigned? true cs
  | cs => unsigned? false cs

/-! ## Writing -/

private def zeros (n : Nat) : String := String.ofList (List.replicate n '0')

/-- Lay out the decimal `c * 10 ^ e`. -/
def layout (d : Shortest.Decimal) : String :=
  let ds := toString d.coefficient
  let n := ds.length
  let point : Int := n + d.exponent
  if 0 ≤ d.exponent ∧ point ≤ 16 then ds ++ zeros d.exponent.toNat ++ ".0"
  else if 0 < point ∧ point ≤ 16 then
    String.ofList (ds.toList.take point.toNat) ++ "." ++ String.ofList (ds.toList.drop point.toNat)
  else if -5 < point ∧ point ≤ 0 then "0." ++ zeros (-point).toNat ++ ds
  else
    let tail := String.ofList (ds.toList.drop 1)
    let exponent := (if 0 < point then "+" else "") ++ toString (point - 1)
    String.ofList (ds.toList.take 1) ++ (if n = 1 then "" else "." ++ tail) ++ "e" ++ exponent

/-- The text of a double; what is not a number has none in JSON and is written as `null`. -/
def render (x : Binary64) : String :=
  match x.value with
  | .finite n =>
    (if x.negative then "-" else "") ++ if n = 0 then "0.0" else layout (Shortest.digits n.natAbs)
  | _ => "null"

end Intercept.JsonNumber
