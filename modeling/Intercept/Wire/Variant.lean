import Intercept.Number.Binary
import Intercept.Wire.Buffer

/-!
# Intercept.Wire.Variant

Lists of tagged values, carried in the tail of a call packet.

```
count:u8 | (index:u8 | kind:u8 | payload)*
```

1. Words are little-endian; a byte string stands behind a four-byte length.
2. The index byte is the position of the value when written and ignored when
   read; the order on the wire is the order of the list.
3. Bytes after the last value are ignored.
-/

namespace Intercept

/-- One tagged value. -/
inductive Value where
  | float (x : Binary32)
  | bytes (b : Bytes)
  | vec2 (x y : Binary32)
  | vec3 (x y z : Binary32)
  | uint (n : UInt32)
  | int (i : Int32)
deriving DecidableEq, Repr

namespace Value

/-- The kind byte of a value. -/
def kind : Value → UInt8
  | float _ => 1
  | bytes _ => 2
  | vec2 .. => 3
  | vec3 .. => 4
  | uint _ => 5
  | int _ => 9

/-- The byte string, if the value is one. -/
def bytes? : Value → Option Bytes
  | bytes b => some b
  | _ => none

/-- The unsigned word, if the value is one. -/
def uint? : Value → Option UInt32
  | uint n => some n
  | _ => none

/-- The signed word, if the value is one. -/
def int? : Value → Option Int32
  | int i => some i
  | _ => none

/-- The single-precision word, if the value is one. -/
def float? : Value → Option Binary32
  | float x => some x
  | _ => none

/-- The payload of a value; a byte string longer than its length word can say is refused. -/
def payload : Value → Except CodecError Bytes
  | float x => .ok (toLittle 4 x.bits.toNat)
  | bytes b =>
    if b.length ≤ LengthWidth.four.max then .ok (toLittle 4 b.length ++ b)
    else .error (.prefixOverflow b.length LengthWidth.four.max)
  | vec2 x y => .ok (toLittle 4 x.bits.toNat ++ toLittle 4 y.bits.toNat)
  | vec3 x y z =>
    .ok (toLittle 4 x.bits.toNat ++ toLittle 4 y.bits.toNat ++ toLittle 4 z.bits.toNat)
  | uint n => .ok (toLittle 4 n.toNat)
  | int i => .ok (toLittle 4 i.toUInt32.toNat)

/-- Read a single-precision word. -/
def readFloat : Reader Binary32 := do
  return ⟨UInt32.ofNat (← Reader.word .little 4)⟩

/-- Read the payload of a value of this kind. -/
def readPayload (kind : Nat) : Reader Value :=
  match kind with
  | 1 => do return .float (← readFloat)
  | 2 => do return .bytes (← Reader.take (← Reader.word .little 4))
  | 3 => do return .vec2 (← readFloat) (← readFloat)
  | 4 => do return .vec3 (← readFloat) (← readFloat) (← readFloat)
  | 5 => do return .uint (UInt32.ofNat (← Reader.word .little 4))
  | 9 => do return .int (UInt32.ofNat (← Reader.word .little 4)).toInt32
  | k => throw (.unknownVariantKind (UInt8.ofNat k))

/-- Read one value: its index, which is dropped, its kind and its payload. -/
def read : Reader Value := do
  let _ ← Reader.word .little 1
  readPayload (← Reader.word .little 1)

end Value

/-- An ordered list of tagged values. -/
abbrev Variant := List Value

namespace Variant

/-- The first value as bytes: the name of the called function. -/
def functionName (v : Variant) : Option Bytes := v.head?.bind Value.bytes?

/-- Read `n` values. -/
def readValues : Nat → Reader (List Value)
  | 0 => pure []
  | n + 1 => do
    let value ← Value.read
    return value :: (← readValues n)

/-- Read a value list from the front of the remaining bytes. -/
def read : Reader Variant := do
  readValues (← Reader.word .little 1)

/-- The value list at the front of these bytes. -/
def decode (b : Bytes) : Except CodecError Variant := (read b).map (·.1)

/-- Values from position `i` on, each behind its index and kind. -/
def encodeFrom (i : Nat) : List Value → Except CodecError Bytes
  | [] => .ok []
  | v :: vs => do
    let payload ← v.payload
    let rest ← encodeFrom (i + 1) vs
    return UInt8.ofNat i :: v.kind :: payload ++ rest

/-- The bytes of a value list; more values than a byte can count are refused. -/
def encode (v : Variant) : Except CodecError Bytes :=
  if 255 < v.length then .error (.tooManyValues v.length)
  else (encodeFrom 0 v).map (UInt8.ofNat v.length :: ·)

end Variant

end Intercept
