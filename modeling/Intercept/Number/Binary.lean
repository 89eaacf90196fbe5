/-!
# Intercept.Number.Binary

Binary floating-point words and the exact values they stand for.

1. A word is carried by its bits; `Binary32` and `Binary64` never lose the
   bits of a not-a-number or the sign of a zero.
2. Every finite word of either width is a whole multiple of `2 ^ -1074`, the
   least positive double, so a finite value *is* an integer count of that
   unit, and comparing two values is comparing two integers.
3. Arithmetic is exact on that grid and rounded once: `Format.round` gives the
   nearest value of a format, the even neighbour on a tie, and an infinity
   from the format's limit on.
-/

namespace Intercept

/-! ## Words -/

/-- A single-precision word. -/
structure Binary32 where
  bits : UInt32
deriving DecidableEq, Repr, Inhabited

/-- A double-precision word. -/
structure Binary64 where
  bits : UInt64
deriving DecidableEq, Repr, Inhabited

/-! ## Values -/

/-- What a word stands for: not a number, an infinity, or a count of `2 ^ -1074`. -/
inductive Extended where
  | nan
  | infinite (negative : Bool)
  | finite (units : Int)
deriving DecidableEq, Repr

namespace Extended

/-- One, counted in units. -/
def one : Nat := Nat.pow 2 1074

/-- The value of an integer. -/
def ofInt (i : Int) : Extended := finite (i * one)

/-- The order of two values; there is none when either is not a number. -/
def compare? : Extended → Extended → Option Ordering
  | nan, _ | _, nan => none
  | infinite a, infinite b => some (if a = b then .eq else if a then .lt else .gt)
  | infinite a, finite _ => some (if a then .lt else .gt)
  | finite _, infinite b => some (if b then .gt else .lt)
  | finite a, finite b => some (compare a b)

/-- Numeric equality: nothing equals not-a-number, and both zeros are one value. -/
def equals (a b : Extended) : Bool := a.compare? b == some .eq

/-- Numeric order, false when either is not a number. -/
def atMost (a b : Extended) : Bool := a.compare? b == some .lt || a.compare? b == some .eq

/-- The value without its sign. -/
def abs : Extended → Extended
  | nan => nan
  | infinite _ => infinite false
  | finite n => finite n.natAbs

/-- The value with the other sign. -/
def neg : Extended → Extended
  | nan => nan
  | infinite s => infinite (!s)
  | finite n => finite (-n)

/-- Whether the value is an ordinary number. -/
def isFinite : Extended → Bool
  | finite _ => true
  | _ => false

/-- Whether the value is below zero. -/
def isNegative : Extended → Bool
  | nan => false
  | infinite s => s
  | finite n => n < 0

end Extended

/-! ## Formats and rounding -/

/-- A format: `precision` significant bits, spacing never below `2 ^ grain` units,
and an infinity from `2 ^ limit` units on. -/
structure Format where
  precision : Nat
  grain : Nat
  limit : Nat
deriving DecidableEq, Repr

namespace Format

/-- The format of `Binary32`. -/
def single : Format := ⟨24, 925, 1202⟩

/-- The format of `Binary64`. -/
def double : Format := ⟨53, 0, 2098⟩

/-- The number of binary digits of a natural. -/
def bitLength (n : Nat) : Nat := if n = 0 then 0 else n.log2 + 1

/-- The quotient rounded to the nearest natural, a half to the even neighbour. -/
def nearest (num den : Nat) : Nat :=
  let q := num / den
  let twice := 2 * (num % den)
  if twice < den then q
  else if den < twice then q + 1
  else if q % 2 = 0 then q else q + 1

/-- The least spacing of the format's values around `num / den` units, as a power of two. -/
def spacing (f : Format) (num den : Nat) : Nat := max f.grain (bitLength (num / den) - f.precision)

/-- The value of the format nearest to `num / den` units, or `none` from its limit on. -/
def roundMagnitude (f : Format) (num den : Nat) : Option Nat :=
  let step := Nat.pow 2 (f.spacing num den)
  let units := nearest num (den * step) * step
  if units < Nat.pow 2 f.limit then some units else none

/-- The value of the format nearest to a signed count of units over `den`. -/
def round (f : Format) (num : Int) (den : Nat) : Extended :=
  match f.roundMagnitude num.natAbs den with
  | some units => .finite (if num < 0 then -(units : Int) else units)
  | none => .infinite (num < 0)

/-- The difference, rounded once; two like infinities have none. -/
def sub (f : Format) : Extended → Extended → Extended
  | .nan, _ | _, .nan => .nan
  | .infinite a, .infinite b => if a = b then .nan else .infinite a
  | .infinite a, .finite _ => .infinite a
  | .finite _, .infinite b => .infinite (!b)
  | .finite a, .finite b => f.round (a - b) 1

/-- Whether the rounded distance of two values is at most `tolerance`. -/
def within (f : Format) (a b tolerance : Extended) : Bool := (f.sub a b).abs.atMost tolerance

end Format

/-! ## From words to values and back -/

/-- The value of a word that has `fraction` fraction bits, given its fields, in units of its
format's least spacing. -/
private def magnitude (fraction exponent mantissa : Nat) : Nat :=
  if exponent = 0 then mantissa else (Nat.pow 2 fraction + mantissa) * Nat.pow 2 (exponent - 1)

private def signed (negative : Bool) (units : Nat) : Int :=
  if negative then -(units : Int) else units

namespace Binary32

/-- The sign bit. -/
def negative (x : Binary32) : Bool := x.bits ≥ 0x80000000

private def exponent (x : Binary32) : Nat := (x.bits.toNat / Nat.pow 2 23) % Nat.pow 2 8

private def mantissa (x : Binary32) : Nat := x.bits.toNat % Nat.pow 2 23

/-- What the word stands for. -/
def value (x : Binary32) : Extended :=
  if x.exponent = 255 then if x.mantissa = 0 then .infinite x.negative else .nan
  else
    .finite (signed x.negative
      (magnitude 23 x.exponent x.mantissa * Nat.pow 2 Format.single.grain))

/-- The word with this sign and magnitude, counted in `2 ^ -149` and below its format's limit. -/
private def ofMagnitude (negative : Bool) (m : Nat) : Binary32 :=
  let e := Format.bitLength m - 24
  let word :=
    if m < Nat.pow 2 23 then m else (e + 1) * Nat.pow 2 23 + (m / Nat.pow 2 e - Nat.pow 2 23)
  ⟨UInt32.ofNat (word + if negative then Nat.pow 2 31 else 0)⟩

/-- The word of a value of the format; `negative` says which zero a zero is. -/
def ofExtended (negative : Bool) : Extended → Binary32
  | .nan => ⟨0x7fc00000⟩
  | .infinite s => ⟨if s then 0xff800000 else 0x7f800000⟩
  | .finite n =>
    ofMagnitude (if n = 0 then negative else n < 0) (n.natAbs / Nat.pow 2 Format.single.grain)

/-- The word nearest to an integer. -/
def ofInt (i : Int) : Binary32 := ofExtended false (Format.single.round (i * Extended.one) 1)

end Binary32

namespace Binary64

/-- The sign bit. -/
def negative (x : Binary64) : Bool := x.bits ≥ 0x8000000000000000

private def exponent (x : Binary64) : Nat := (x.bits.toNat / Nat.pow 2 52) % Nat.pow 2 11

private def mantissa (x : Binary64) : Nat := x.bits.toNat % Nat.pow 2 52

/-- What the word stands for. -/
def value (x : Binary64) : Extended :=
  if x.exponent = 2047 then if x.mantissa = 0 then .infinite x.negative else .nan
  else .finite (signed x.negative (magnitude 52 x.exponent x.mantissa))

/-- The word with this sign and count of units, below its format's limit. -/
private def ofMagnitude (negative : Bool) (m : Nat) : Binary64 :=
  let e := Format.bitLength m - 53
  let word :=
    if m < Nat.pow 2 52 then m else (e + 1) * Nat.pow 2 52 + (m / Nat.pow 2 e - Nat.pow 2 52)
  ⟨UInt64.ofNat (word + if negative then Nat.pow 2 63 else 0)⟩

/-- The word of a value of the format; `negative` says which zero a zero is. -/
def ofExtended (negative : Bool) : Extended → Binary64
  | .nan => ⟨0x7ff8000000000000⟩
  | .infinite s => ⟨if s then 0xfff0000000000000 else 0x7ff0000000000000⟩
  | .finite n => ofMagnitude (if n = 0 then negative else n < 0) n.natAbs

/-- The single-precision word nearest to this one; the bits of a not-a-number are not kept. -/
def toSingle (x : Binary64) : Binary32 :=
  match x.value with
  | .finite n => Binary32.ofExtended x.negative (Format.single.round n 1)
  | v => Binary32.ofExtended x.negative v

end Binary64

end Intercept
