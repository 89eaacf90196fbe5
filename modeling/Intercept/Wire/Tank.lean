import Intercept.Wire.Mode
import Intercept.Wire.TankType
import Intercept.Wire.Variant

/-!
# Intercept.Wire.Tank

The tank packet: a little-endian struct of 56 bytes and a tail.

```
 0 type      1 object type   2 jump count   3 animation type
 4 net id    8 target net id 12 flags       16 float variable   20 value
24 vector x 28 vector y      32 vector x2   36 vector y2        40 particle rotation
44 int x    48 int y         52 declared length of the tail     56 tail
```

1. The declared length is not kept: writing always declares the actual one.
2. A tail that is longer than declared is refused or cut, as the mode says; a
   shorter one is always refused.
3. A tail is written only under the flag that announces it.
-/

namespace Intercept

/-! ## Flags -/

/-- The flag word of a tank packet. -/
structure TankFlags where
  bits : UInt32
deriving DecidableEq, Repr

namespace TankFlags

/-- The flag that announces a tail. -/
def extended : TankFlags := ⟨8⟩

/-- Whether every flag of `other` is set. -/
def contains (f other : TankFlags) : Bool := f.bits &&& other.bits == other.bits

/-- The flags of either word. -/
def union (f other : TankFlags) : TankFlags := ⟨f.bits ||| other.bits⟩

/-- The flags of both words. -/
def inter (f other : TankFlags) : TankFlags := ⟨f.bits &&& other.bits⟩

/-- The flags without those of `other`. -/
def remove (f other : TankFlags) : TankFlags := ⟨f.bits &&& ~~~other.bits⟩

end TankFlags

/-! ## The packet -/

/-- A tank packet. -/
structure Tank where
  type : TankType
  objectType : UInt8
  jumpCount : UInt8
  animationType : UInt8
  netId : UInt32
  targetNetId : Int32
  flags : TankFlags
  floatVar : Binary32
  value : UInt32
  vectorX : Binary32
  vectorY : Binary32
  vectorX2 : Binary32
  vectorY2 : Binary32
  particleRotation : Binary32
  intX : Int32
  intY : Int32
  /-- The tail. -/
  tail : Bytes
deriving DecidableEq, Repr

namespace Tank

/-- The length of the struct. -/
def structLength : Nat := 56

/-- A packet of this type with every field zero and no tail. -/
def zero (t : TankType) : Tank :=
  ⟨t, 0, 0, 0, 0, 0, ⟨0⟩, ⟨0⟩, 0, ⟨0⟩, ⟨0⟩, ⟨0⟩, ⟨0⟩, ⟨0⟩, 0, 0, []⟩

/-- The packet with this tail, and the announcing flag set exactly when there is one. -/
def setTail (t : Tank) (tail : Bytes) : Tank :=
  { t with
    tail := tail
    flags := if tail = [] then t.flags.remove .extended else t.flags.union .extended }

/-! ### Reading -/

/-- Read the type, which is a byte. -/
def readType : Reader TankType := do
  let code ← Reader.byte
  match TankType.ofCode? code with
  | some t => return t
  | none => throw (.unknownTankType code)

/-- Read the struct up to the declared length: a packet without its tail. -/
def readFields : Reader Tank := do
  return {
    type := ← readType
    objectType := ← Reader.byte
    jumpCount := ← Reader.byte
    animationType := ← Reader.byte
    netId := ← Reader.uint
    targetNetId := ← Reader.int
    flags := ⟨← Reader.uint⟩
    floatVar := ← Value.readFloat
    value := ← Reader.uint
    vectorX := ← Value.readFloat
    vectorY := ← Value.readFloat
    vectorX2 := ← Value.readFloat
    vectorY2 := ← Value.readFloat
    particleRotation := ← Value.readFloat
    intX := ← Reader.int
    intY := ← Reader.int
    tail := [] }

/-- Read the tail, of which `declared` bytes are announced. -/
def readTail (mode : DecodeMode) (declared : Nat) : Reader Bytes := fun available =>
  let actual := available.length
  if declared = actual then Reader.remaining available
  else match mode with
    | .strict => .error (.extendedLenMismatch declared actual)
    | .relaxed =>
      if actual < declared then .error (.truncatedExtendedData declared actual)
      else Reader.take declared available

/-- Read a tank packet. -/
def read (mode : DecodeMode) : Reader Tank := do
  let t ← readFields
  let declared ← Reader.word .little 4
  return { t with tail := ← readTail mode declared }

/-- The tank packet whose bytes are `body`. -/
def decode (mode : DecodeMode) (body : Bytes) : Except CodecError Tank :=
  if body.length < structLength then .error (.truncatedStruct structLength body.length)
  else (read mode body).map (·.1)

/-! ### Writing -/

/-- The bytes of a word. -/
def word (n : UInt32) : Bytes := toLittle 4 n.toNat

/-- The struct, without the declared length. -/
def fields (t : Tank) : Bytes :=
  [t.type.code, t.objectType, t.jumpCount, t.animationType] ++ word t.netId ++
    word t.targetNetId.toUInt32 ++ word t.flags.bits ++ word t.floatVar.bits ++ word t.value ++
    word t.vectorX.bits ++ word t.vectorY.bits ++ word t.vectorX2.bits ++ word t.vectorY2.bits ++
    word t.particleRotation.bits ++ word t.intX.toUInt32 ++ word t.intY.toUInt32

/-- The bytes of a tank packet. -/
def encode (t : Tank) : Except CodecError Bytes :=
  if t.tail ≠ [] ∧ !t.flags.contains .extended then .error (.extendedDataWithoutFlag t.tail.length)
  else if LengthWidth.four.max < t.tail.length then
    .error (.prefixOverflow t.tail.length LengthWidth.four.max)
  else .ok (t.fields ++ toLittle 4 t.tail.length ++ t.tail)

/-- The value list in the tail of a call packet; other types carry none. -/
def call (t : Tank) : Except CodecError (Option Variant) :=
  if t.type = .callFunction then (Variant.decode t.tail).map some else .ok none

/-! ### Comparing -/

/-- The floating-point fields. -/
def floats (t : Tank) : List Binary32 :=
  [t.floatVar, t.vectorX, t.vectorY, t.vectorX2, t.vectorY2, t.particleRotation]

/-- The packet with its floating-point fields zero. -/
def dropFloats (t : Tank) : Tank :=
  { t with
    floatVar := ⟨0⟩, vectorX := ⟨0⟩, vectorY := ⟨0⟩
    vectorX2 := ⟨0⟩, vectorY2 := ⟨0⟩, particleRotation := ⟨0⟩ }

/-- Equality with the floating-point fields compared as numbers: a packet with a field that is
not a number differs even from itself. -/
def agrees (t u : Tank) : Bool :=
  t.dropFloats == u.dropFloats && (t.floats.zip u.floats).all fun (x, y) => x.value.equals y.value

end Tank

end Intercept
