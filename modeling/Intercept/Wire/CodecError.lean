/-!
# Intercept.Wire.CodecError

Why bytes could not be read or written. Each cause belongs to one layer of
the format, and has one wording.
-/

namespace Intercept

/-- The layer of the format that refused. -/
inductive Layer where
  /-- Cursor reads and writes. -/
  | buffer
  /-- The type tag around every packet. -/
  | envelope
  /-- The tank struct and its tail. -/
  | tank
  /-- The list of tagged values. -/
  | variant
  /-- The binary lane of an extension. -/
  | frame
deriving DecidableEq, Repr

/-- The name of a layer in metrics and messages. -/
def Layer.name : Layer → String
  | .buffer => "buffer"
  | .envelope => "envelope"
  | .tank => "tank"
  | .variant => "variant"
  | .frame => "frame"

/-- What is wrong with a frame whose version is right. -/
inductive FrameDefect where
  | tooShort
  | unknownOp
  | unknownDirection
  | missingPacket
deriving DecidableEq, Repr

/-- The wording of a frame defect. -/
def FrameDefect.message : FrameDefect → String
  | .tooShort => "frame too short"
  | .unknownOp => "unknown op"
  | .unknownDirection => "unknown direction"
  | .missingPacket => "op requires a packet"

/-- Why one message could not be decoded or encoded. -/
inductive CodecError where
  /-- A read of `need` bytes where only `left` are. -/
  | eof (need left : Nat)
  /-- A byte string of `len` bytes behind a length word that counts to `max`. -/
  | prefixOverflow (len max : Nat)
  /-- A packet of `len < 4` bytes has no type tag. -/
  | malformedTypeTag (len : Nat)
  | unknownType (tag : Nat)
  | unknownTankType (code : UInt8)
  /-- A tank body of `left` bytes is shorter than its struct. -/
  | truncatedStruct (need left : Nat)
  /-- The declared length of the tail is not its actual one. -/
  | extendedLenMismatch (declared actual : Nat)
  /-- The tail ends before its declared length. -/
  | truncatedExtendedData (declared actual : Nat)
  /-- A tail of `len` bytes without the flag that announces one. -/
  | extendedDataWithoutFlag (len : Nat)
  | tooManyValues (count : Nat)
  | unknownVariantKind (code : UInt8)
  | badFrame (defect : FrameDefect)
  | unsupportedVersion (version : UInt8)
deriving DecidableEq, Repr

namespace CodecError

/-- The layer that a cause belongs to. -/
def layer : CodecError → Layer
  | eof .. | prefixOverflow .. => .buffer
  | malformedTypeTag _ | unknownType _ => .envelope
  | unknownTankType _ | truncatedStruct .. | extendedLenMismatch .. | truncatedExtendedData ..
  | extendedDataWithoutFlag _ => .tank
  | tooManyValues _ | unknownVariantKind _ => .variant
  | badFrame _ | unsupportedVersion _ => .frame

/-- The wording of a cause. -/
def message : CodecError → String
  | eof need left => s!"read past end of buffer (need {need}, have {left})"
  | prefixOverflow len max => s!"{len} bytes do not fit a length prefix of at most {max}"
  | malformedTypeTag len => s!"type tag needs 4 bytes, got {len}"
  | unknownType tag => s!"unknown net packet type {tag}"
  | unknownTankType code => s!"unknown tank packet type {code}"
  | truncatedStruct need left => s!"tank struct truncated (need {need}, have {left})"
  | extendedLenMismatch declared actual =>
    s!"extended data length mismatch (declared {declared}, actual {actual})"
  | truncatedExtendedData declared actual =>
    s!"extended data truncated (declared {declared}, actual {actual})"
  | extendedDataWithoutFlag len => s!"{len} bytes of extended data without the EXTENDED flag"
  | tooManyValues count => s!"variant holds {count} values, at most 255 are addressable"
  | unknownVariantKind code => s!"unknown variant kind {code}"
  | badFrame defect => s!"bad extension frame: {defect.message}"
  | unsupportedVersion version => s!"unsupported frame version {version}"

end CodecError

end Intercept
