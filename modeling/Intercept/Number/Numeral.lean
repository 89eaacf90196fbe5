import Intercept.Number.Binary

/-!
# Intercept.Number.Numeral

Decimal numerals in text, and the double nearest to each.

The grammar is: an optional sign; then `inf`, `infinity` or `nan` in any case,
or digits with at most one point among them and at least one digit, and an
optional exponent (`e` or `E`, an optional sign, at least one digit). Nothing
may stand around it.

The value is the nearest double to the exact decimal, an infinity beyond the
greatest one.
-/

namespace Intercept.Numeral

/-- The value of an ASCII digit. -/
def digit? (c : Char) : Option Nat := if '0' ≤ c ∧ c ≤ '9' then some (c.toNat - '0'.toNat) else none

/-- The digits at the front, and what follows them. -/
def digits : List Char → List Nat × List Char
  | [] => ([], [])
  | c :: cs =>
    match digit? c with
    | some d => (d :: (digits cs).1, (digits cs).2)
    | none => ([], c :: cs)

/-- The natural that digits spell. -/
def ofDigits (ds : List Nat) : Nat := ds.foldl (fun n d => 10 * n + d) 0

/-- A sign at the front: whether it is a minus, and what follows it. -/
def sign : List Char → Bool × List Char
  | '-' :: cs => (true, cs)
  | '+' :: cs => (false, cs)
  | cs => (false, cs)

/-- The exponent at the front, zero when there is none; a mark without digits is refused. -/
def exponent? : List Char → Option (Int × List Char)
  | [] => some (0, [])
  | c :: cs =>
    if c = 'e' ∨ c = 'E' then
      let (negative, cs) := sign cs
      match digits cs with
      | ([], _) => none
      | (ds, rest) => some (if negative then -(ofDigits ds : Int) else ofDigits ds, rest)
    else some (0, c :: cs)

/-- The double nearest to `m * 10 ^ e`. Past either end of the range the power need not be
computed: a numeral of `d` digits lies below `10 ^ (d + e)`. -/
def scaled (m : Nat) (e : Int) : Extended :=
  let size : Int := (Nat.toDigits 10 m).length + e
  if m = 0 ∨ size < -330 then .finite 0
  else if 320 < size then .infinite false
  else if 0 ≤ e then Format.double.round (m * Nat.pow 10 e.toNat * Extended.one) 1
  else Format.double.round (m * Extended.one) (Nat.pow 10 (-e).toNat)

/-- The value of an unsigned numeral. -/
def unsigned? (cs : List Char) : Option Extended :=
  let name := String.ofList (cs.map Char.toLower)
  if name = "inf" ∨ name = "infinity" then some (.infinite false)
  else if name = "nan" then some .nan
  else
    let (whole, rest) := digits cs
    let (fraction, rest) := match rest with
      | '.' :: rest => digits rest
      | rest => ([], rest)
    if whole = [] ∧ fraction = [] then none
    else match exponent? rest with
      | some (e, []) => some (scaled (ofDigits (whole ++ fraction)) (e - fraction.length))
      | _ => none

/-- The value of a numeral, or `none` when the text is not one. -/
def value? (s : String) : Option Extended :=
  let (negative, cs) := sign s.toList
  (unsigned? cs).map fun v => if negative then v.neg else v

end Intercept.Numeral
