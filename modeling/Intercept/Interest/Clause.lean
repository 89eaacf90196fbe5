import Intercept.Interest.Like
import Intercept.Number.Numeral
import Intercept.Text.Blank
import Intercept.Wire.Packet

/-!
# Intercept.Interest.Clause

Clauses: one field of a packet, one operator, one literal.

1. Evaluating never fails. A field that a packet does not have, a missing
   cell, and a literal that the operator cannot use make a clause false.
2. Numbers are compared exactly, whatever their width. A cell or byte string
   is a number if it is UTF-8 that spells one between white space.
3. Tolerant equality compares the distance, rounded once to the width of the
   comparison: single for vectors, double for all else. A tolerance of zero
   means plain equality.
4. `validate` refuses clauses whose operator and literal do not go together.
-/

namespace Intercept

/-! ## Fields -/

/-- A field of the tank struct, or its tail. -/
inductive TankField where
  | type
  | objectType
  | jumpCount
  | animationType
  | netId
  | targetNetId
  | flags
  | floatVar
  | value
  | vectorX
  | vectorY
  | vectorX2
  | vectorY2
  | particleRotation
  | intX
  | intY
  | extendedLen
  | extendedData
deriving DecidableEq, Repr

namespace TankField

/-- Every field. -/
def all : List TankField :=
  [type, objectType, jumpCount, animationType, netId, targetNetId, flags, floatVar, value, vectorX,
    vectorY, vectorX2, vectorY2, particleRotation, intX, intY, extendedLen, extendedData]

/-- The name of a field. -/
def name : TankField → String
  | type => "type"
  | objectType => "object_type"
  | jumpCount => "jump_count"
  | animationType => "animation_type"
  | netId => "net_id"
  | targetNetId => "target_net_id"
  | flags => "flags"
  | floatVar => "float_var"
  | value => "value"
  | vectorX => "vector_x"
  | vectorY => "vector_y"
  | vectorX2 => "vector_x2"
  | vectorY2 => "vector_y2"
  | particleRotation => "particle_rotation"
  | intX => "int_x"
  | intY => "int_y"
  | extendedLen => "extended_len"
  | extendedData => "extended_data"

/-- The field with this name. -/
def ofName? (s : String) : Option TankField := all.find? (·.name = s)

end TankField

/-- How a row of a table is chosen. -/
inductive RowSelector where
  /-- The row that the key index has for this key. -/
  | key (k : String)
  /-- The first row with a cell that equals this text; columns then count from that cell. -/
  | keyAny (k : String)
  /-- The row with this number. -/
  | index (i : Nat)
deriving DecidableEq, Repr

/-- How a cell of the chosen row is chosen. -/
inductive ColSelector where
  | absolute (c : Nat)
  /-- So many columns from the cell that chose the row, or from its first one. -/
  | relative (offset : Int)
deriving DecidableEq, Repr

/-- A field of a packet. -/
inductive Field where
  | tank (f : TankField)
  | table (row : RowSelector) (col : ColSelector)
  /-- A value of a call packet's list, by position. -/
  | variant (n : Nat)
deriving DecidableEq, Repr

/-- The value of a field of a tank packet; a length of `2 ^ 32` or more has none. -/
def Tank.field? (t : Tank) : TankField → Option Value
  | .type => some (.uint t.type.code.toUInt32)
  | .objectType => some (.uint t.objectType.toUInt32)
  | .jumpCount => some (.uint t.jumpCount.toUInt32)
  | .animationType => some (.uint t.animationType.toUInt32)
  | .netId => some (.uint t.netId)
  | .targetNetId => some (.int t.targetNetId)
  | .flags => some (.uint t.flags.bits)
  | .floatVar => some (.float t.floatVar)
  | .value => some (.uint t.value)
  | .vectorX => some (.float t.vectorX)
  | .vectorY => some (.float t.vectorY)
  | .vectorX2 => some (.float t.vectorX2)
  | .vectorY2 => some (.float t.vectorY2)
  | .particleRotation => some (.float t.particleRotation)
  | .intX => some (.int t.intX)
  | .intY => some (.int t.intY)
  | .extendedLen =>
    if t.tail.length < UInt32.size then some (.uint (UInt32.ofNat t.tail.length)) else none
  | .extendedData => some (.bytes t.tail)

/-- Row number and column to count from, as a selector chooses them. -/
def Table.select (t : Table) : RowSelector → Option (Nat × Nat)
  | .key k => (t.position (Bytes.ofText k)).map (·, 0)
  | .keyAny k => t.find (Bytes.ofText k)
  | .index i => some (i, 0)

/-- The cell that two selectors choose. -/
def Table.cell? (t : Table) (row : RowSelector) (col : ColSelector) : Option Bytes := do
  let (r, base) ← t.select row
  let c ← match col with
    | .absolute c => some c
    | .relative offset => Table.shiftColumn base offset
  (← t.row r)[c]?

/-- The value list of a call packet, if it has one that decodes. -/
def Packet.call? (p : Packet) : Option Variant :=
  p.tank?.bind fun t => match t.call with
    | .ok v => v
    | .error _ => none

/-- The value of a field of a packet. -/
def Field.resolve (p : Packet) : Field → Option Value
  | .tank f => p.tank?.bind (·.field? f)
  | .table row col => p.table?.bind fun t => (t.cell? row col).map .bytes
  | .variant n => p.call?.bind fun v : Variant => v[n]?

/-! ## Operators and literals -/

/-- An operator. -/
inductive Op where
  | eq
  | eqEps
  | neq
  | gt
  | gte
  | lt
  | lte
  | bitTest
  | contains
  | startsWith
  | endsWith
  | like
deriving DecidableEq, Repr

namespace Op

/-- Every operator. -/
def all : List Op :=
  [eq, eqEps, neq, gt, gte, lt, lte, bitTest, contains, startsWith, endsWith, like]

/-- The name of an operator. -/
def name : Op → String
  | eq => "eq"
  | eqEps => "eq_eps"
  | neq => "neq"
  | gt => "gt"
  | gte => "gte"
  | lt => "lt"
  | lte => "lte"
  | bitTest => "bit_test"
  | contains => "contains"
  | startsWith => "starts_with"
  | endsWith => "ends_with"
  | like => "like"

/-- The operator with this name. -/
def ofName? (s : String) : Option Op := all.find? (·.name = s)

/-- Whether the operator looks at text. -/
def isText (op : Op) : Bool := op = contains ∨ op = startsWith ∨ op = endsWith ∨ op = like

/-- Whether the operator needs an order. -/
def isOrder (op : Op) : Bool := op = gt ∨ op = gte ∨ op = lt ∨ op = lte

end Op

/-- What a field is compared with. -/
inductive Literal where
  | u32 (n : UInt32)
  | i32 (i : Int32)
  | f32 (x : Binary32)
  | str (s : String)
  | bytes (b : Bytes)
  | vec2 (x y : Binary32)
  | vec3 (x y z : Binary32)
deriving DecidableEq, Repr

namespace Literal

/-- The number, if the literal is one. -/
def number? : Literal → Option Extended
  | u32 n => some (.ofInt n.toNat)
  | i32 i => some (.ofInt i.toInt)
  | f32 x => some x.value
  | _ => none

/-- The byte string, if the literal is one. -/
def bytes? : Literal → Option Bytes
  | str s => some (Bytes.ofText s)
  | bytes b => some b
  | _ => none

/-- The bit mask, if the literal is one. -/
def mask? : Literal → Option UInt32
  | u32 n => some n
  | i32 i => some i.toUInt32
  | _ => none

end Literal

namespace Value

/-- The number that a value is or spells. -/
def number? : Value → Option Extended
  | uint n => some (.ofInt n.toNat)
  | int i => some (.ofInt i.toInt)
  | float x => some x.value
  | bytes b => (Bytes.toText? b).bind fun s => Numeral.value? (Text.trim s)
  | vec2 .. | vec3 .. => none

/-- The bits of an integer. -/
def bits? : Value → Option UInt32
  | uint n => some n
  | int i => some i.toUInt32
  | _ => none

/-! ## Comparing -/

/-- Equality under a tolerance, at the width of a format. -/
def close (f : Format) (a b tolerance : Extended) : Bool :=
  if tolerance.equals (.finite 0) then a.equals b else f.within a b tolerance

/-- Whether a value equals a literal under a tolerance; `none` when the two do not compare. -/
def equals? (v : Value) (lit : Literal) (tolerance : Extended) : Option Bool :=
  match v, lit with
  | vec2 x y, .vec2 lx ly =>
    some (close .single x.value lx.value tolerance && close .single y.value ly.value tolerance)
  | vec3 x y z, .vec3 lx ly lz =>
    some (close .single x.value lx.value tolerance && close .single y.value ly.value tolerance &&
      close .single z.value lz.value tolerance)
  | bytes b, .str s => some (Bytes.ofText s == b)
  | bytes b, .bytes l => some (l == b)
  | v, lit => do
    let a ← v.number?
    let b ← lit.number?
    return close .double a b tolerance

/-- The order of a value and a literal; `none` when the two do not compare. -/
def order? (v : Value) (lit : Literal) : Option Ordering := do
  let a ← v.number?
  let b ← lit.number?
  a.compare? b

/-- Whether some stretch of a byte string equals `needle`. -/
def occursIn (needle : Bytes) : Bytes → Bool
  | [] => needle.isEmpty
  | b :: bs => needle.isPrefixOf (b :: bs) || occursIn needle bs

/-- Whether a text operator holds between a text and a needle. -/
def textHolds (op : Op) (text needle : Bytes) : Bool :=
  match op with
  | .contains => occursIn needle text
  | .startsWith => needle.isPrefixOf text
  | .endsWith => needle.isSuffixOf text
  | .like => Like.accepts text needle
  | _ => false

end Value

/-! ## Clauses -/

/-- One condition on a packet. -/
structure Clause where
  field : Field
  op : Op
  literal : Literal
  /-- The tolerance of `eqEps`. -/
  eps : Option Binary32
deriving DecidableEq, Repr

/-- What makes a clause pointless. -/
inductive ClauseDefect where
  | textLiteral
  | numericLiteral
  | integerMask
  | tolerantLiteral
  | tolerance
deriving DecidableEq, Repr

/-- The wording of a clause defect. -/
def ClauseDefect.message : ClauseDefect → String
  | textLiteral => "string operators need a `str` or `bytes` literal"
  | numericLiteral => "ordering operators need a numeric literal"
  | integerMask => "`bit_test` needs an integer mask"
  | tolerantLiteral => "`eq_eps` needs a numeric or vector literal"
  | tolerance => "`eps` must be a finite non-negative number"

namespace Clause

/-- The tolerance of a clause that names none: the single nearest to 0.0001. -/
def defaultEps : Binary32 := ⟨0x38d1b717⟩

/-- Whether an operator holds between a value and a literal. -/
def holds (op : Op) (v : Value) (lit : Literal) (eps : Binary32) : Bool :=
  match op with
  | .eq => v.equals? lit (.finite 0) == some true
  | .neq => v.equals? lit (.finite 0) == some false
  | .eqEps => v.equals? lit eps.value == some true
  | .gt => v.order? lit == some .gt
  | .gte => v.order? lit == some .gt || v.order? lit == some .eq
  | .lt => v.order? lit == some .lt
  | .lte => v.order? lit == some .lt || v.order? lit == some .eq
  | .bitTest =>
    match v.bits?, lit.mask? with
    | some a, some m => a &&& m != 0
    | _, _ => false
  | .contains | .startsWith | .endsWith | .like =>
    match v.bytes?, lit.bytes? with
    | some text, some needle => Value.textHolds op text needle
    | _, _ => false

/-- Whether a clause holds of a packet. -/
def eval (c : Clause) (p : Packet) : Bool :=
  match c.field.resolve p with
  | some v => holds c.op v c.literal (c.eps.getD defaultEps)
  | none => false

/-- The first reason to refuse a clause: a literal that its operator cannot use, or a tolerance
that is no finite number from zero on. -/
def defect? (c : Clause) : Option ClauseDefect :=
  if c.op.isText ∧ c.literal.bytes?.isNone then some .textLiteral
  else if c.op.isOrder ∧ c.literal.number?.isNone then some .numericLiteral
  else if c.op = .bitTest ∧ c.literal.mask?.isNone then some .integerMask
  else if c.op = .eqEps ∧ c.literal.bytes?.isSome then some .tolerantLiteral
  else match c.eps with
    | some e => if !e.value.isFinite ∨ e.value.isNegative then some .tolerance else none
    | none => none

end Clause

end Intercept
