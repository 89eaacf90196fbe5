import Intercept.Text.Json

/-!
# Intercept.Text.JsonShape

How choices, records and numbers of fixed width are written in JSON.

1. A choice is its name, or an object with its name as the only key and its
   content as the value. A choice without content may also be written as an
   object, with `null` for the content.
2. A record is an object of its fields, no others, or an array of them in
   order, from the end of which optional fields may be missing.
3. An integer stands without point and exponent and in range. A
   single-precision number is any number: an integer is rounded once, all else
   goes through its double.
-/

namespace Intercept

namespace Json

/-- A choice: its name, and its content if it is written with one. -/
def choice? : Json → Option (String × Option Json)
  | str s => some (s, none)
  | obj [(k, v)] => some (k, some v)
  | _ => none

/-- A choice without content. -/
def unit? (j : Json) : Option String :=
  match j.choice? with
  | some (name, none) | some (name, some null) => some name
  | _ => none

/-- A choice with content. -/
def content? (j : Json) : Option (String × Json) :=
  match j.choice? with
  | some (name, some v) => some (name, v)
  | _ => none

/-- An integer from `low` to `high`. -/
def intIn? (low high : Int) : Json → Option Int
  | int i => if low ≤ i ∧ i ≤ high then some i else none
  | _ => none

/-- A natural below `2 ^ bits`. -/
def natBelow? (bits : Nat) (j : Json) : Option Nat :=
  (j.intIn? 0 (Nat.pow 2 bits - 1)).map Int.toNat

/-- A 32-bit word. -/
def word? (j : Json) : Option UInt32 := (j.natBelow? 32).map UInt32.ofNat

/-- A number in single precision. -/
def single? : Json → Option Binary32
  | int i => some (Binary32.ofInt i)
  | real x => some x.toSingle
  | _ => none

/-- A text. -/
def text? : Json → Option String
  | str s => some s
  | _ => none

/-- Items. -/
def list? : Json → Option (List Json)
  | arr items => some items
  | _ => none

/-- The fields of a record, in the order of their names, as far as they are there. -/
def record? (names : List String) : Json → Option (List (Option Json))
  | obj members =>
    if members.all fun (k, _) => names.contains k then
      some (names.map fun n => members.lookup n)
    else none
  | arr items =>
    if items.length ≤ names.length then
      some (items.map some ++ List.replicate (names.length - items.length) none)
    else none
  | _ => none

/-- An optional field of a record, or its default when it is missing. -/
def orDefault (default : α) (read : Json → Option α) : Option Json → Option α
  | none => some default
  | some j => read j

end Json

end Intercept
