import Intercept.Fault
import Intercept.Wire.Buffer
import Intercept.Wire.Mode

/-!
# Intercept.Lane.Frame

The binary lane between the broker and an extension.

```
v:u8 | op:u8 | direction:u8 | reserved:u8 | packet_id:u64 | interest_id:u32 |
hit_count:u32 | packet_flags:u32 | packet
```

1. Words are little-endian; the version is 1; the reserved byte is written as
   zero and ignored when read.
2. A delivery, a replacement and a push need a packet; a pass and a
   cancellation may carry one, which means nothing.
3. Of several faults the first of these is reported: length, version, op,
   direction, missing packet.
-/

namespace Intercept

/-- What a frame asks for. -/
inductive FrameOp where
  /-- To the extension: a packet matched one of its interests. -/
  | deliver
  /-- Go on with the attached packet. -/
  | forward
  /-- Go on with the packet unchanged. -/
  | pass
  /-- Send the attached packet now. -/
  | finish
  /-- Drop the packet. -/
  | cancel
  /-- From the extension: send a packet of its own. -/
  | push
deriving DecidableEq, Repr

namespace FrameOp

/-- Every op, in the order of the wire codes. -/
def all : List FrameOp := [deliver, forward, pass, finish, cancel, push]

/-- The name of an op. -/
def name : FrameOp → String
  | deliver => "deliver"
  | forward => "forward"
  | pass => "pass"
  | finish => "finish"
  | cancel => "cancel"
  | push => "push"

/-- The wire code of an op; the first is one. -/
def code (op : FrameOp) : UInt8 := UInt8.ofNat (op.ctorIdx + 1)

/-- The op with this wire code. -/
def ofCode? (c : UInt8) : Option FrameOp := if c = 0 then none else all[c.toNat - 1]?

/-- Whether the op is meaningless without a packet. -/
def needsPacket (op : FrameOp) : Bool := op ≠ pass ∧ op ≠ cancel

theorem ofCode?_code (op : FrameOp) : ofCode? op.code = some op := by cases op <;> rfl

end FrameOp

/-- One frame of the binary lane. -/
structure Frame where
  op : FrameOp
  direction : Direction
  /-- Ties an answer to its delivery. -/
  packetId : UInt64
  /-- The interest that matched. -/
  interestId : UInt32
  /-- How many extensions have answered for the packet so far. -/
  hitCount : UInt32
  /-- Flags of the transport, which nobody here reads. -/
  packetFlags : UInt32
  /-- An encoded packet. -/
  packet : Bytes
deriving DecidableEq, Repr

namespace Frame

/-- The only version. -/
def version : UInt8 := 1

/-- The length of everything before the packet. -/
def headerLength : Nat := 24

/-- The bytes of a frame. -/
def encode (f : Frame) : Bytes :=
  [version, f.op.code, f.direction.code, 0] ++ toLittle 8 f.packetId.toNat ++
    toLittle 4 f.interestId.toNat ++ toLittle 4 f.hitCount.toNat ++
      toLittle 4 f.packetFlags.toNat ++ f.packet

/-- The frame that these bytes spell. -/
def decode (b : Bytes) : Except CodecError Frame := do
  if b.length < headerLength then throw (.badFrame .tooShort)
  let v := UInt8.ofNat (b.wordAt 0 1)
  if v ≠ version then throw (.unsupportedVersion v)
  let some op := FrameOp.ofCode? (UInt8.ofNat (b.wordAt 1 1)) | throw (.badFrame .unknownOp)
  let some direction := Direction.ofCode? (UInt8.ofNat (b.wordAt 2 1))
    | throw (.badFrame .unknownDirection)
  let packet := b.drop headerLength
  if op.needsPacket ∧ packet = [] then throw (.badFrame .missingPacket)
  return {
    op, direction
    packetId := UInt64.ofNat (b.wordAt 4 8)
    interestId := UInt32.ofNat (b.wordAt 12 4)
    hitCount := UInt32.ofNat (b.wordAt 16 4)
    packetFlags := UInt32.ofNat (b.wordAt 20 4)
    packet }

end Frame

end Intercept
