import Intercept.Wire.Table
import Intercept.Wire.Tank

/-!
# Intercept.Wire.Packet

One message of the game protocol.

```
type:u32 little-endian | payload | one byte, whatever its value
```

The type decides the payload: a tank packet, a text table, or nothing.
-/

namespace Intercept

/-- Type of a packet. Tag zero is reserved and never decodes. -/
inductive PacketType where
  | serverHello
  | genericText
  | gameMessage
  | tankPacket
  | error
  | track
  | clientLogRequest
  | clientLogResponse
deriving DecidableEq, Repr

namespace PacketType

/-- Every type, in the order of the tags. -/
def all : List PacketType :=
  [serverHello, genericText, gameMessage, tankPacket, error, track, clientLogRequest,
    clientLogResponse]

/-- The name of a type. -/
def name : PacketType → String
  | serverHello => "SERVER_HELLO"
  | genericText => "GENERIC_TEXT"
  | gameMessage => "GAME_MESSAGE"
  | tankPacket => "TANK_PACKET"
  | error => "ERROR"
  | track => "TRACK"
  | clientLogRequest => "CLIENT_LOG_REQUEST"
  | clientLogResponse => "CLIENT_LOG_RESPONSE"

/-- The tag of a type; the first is one. -/
def tag (t : PacketType) : Nat := t.ctorIdx + 1

/-- The type with this tag. -/
def ofTag? (n : Nat) : Option PacketType := if n = 0 then none else all[n - 1]?

/-- The type with this tag, or the refusal of the tag. -/
def ofTag (n : Nat) : Except CodecError PacketType :=
  match ofTag? n with
  | some t => .ok t
  | none => .error (.unknownType n)

/-- The type with this name. -/
def ofName? (s : String) : Option PacketType := all.find? (·.name = s)

/-- Whether packets of the type carry a text table. -/
def carriesTable (t : PacketType) : Bool := t = genericText ∨ t = gameMessage ∨ t = track

theorem ofTag?_tag (t : PacketType) : ofTag? t.tag = some t := by cases t <;> rfl

end PacketType

/-- What a packet carries. -/
inductive Payload where
  | empty
  | tank (t : Tank)
  | table (t : Table)
deriving DecidableEq, Repr

/-- One message. -/
structure Packet where
  type : PacketType
  payload : Payload
deriving DecidableEq, Repr

namespace Packet

/-- The tank packet inside, if there is one. -/
def tank? (p : Packet) : Option Tank :=
  match p.payload with
  | .tank t => some t
  | _ => none

/-- The text table inside, if there is one. -/
def table? (p : Packet) : Option Table :=
  match p.payload with
  | .table t => some t
  | _ => none

/-- The payload that bytes of this type spell. -/
def decodePayload (mode : DecodeMode) (t : PacketType) (body : Bytes) : Except CodecError Payload :=
  if t = .tankPacket then (Tank.decode mode body).map .tank
  else if t.carriesTable then .ok (.table (Table.decode body))
  else .ok .empty

/-- The message that these bytes spell. The last byte after the tag is dropped, whatever it is. -/
def decode (mode : DecodeMode) (b : Bytes) : Except CodecError Packet := do
  if b.length < 4 then throw (.malformedTypeTag b.length)
  let t ← PacketType.ofTag (ofLittle (b.take 4))
  let payload ← decodePayload mode t (b.drop 4).dropLast
  return ⟨t, payload⟩

/-- The bytes of a payload. -/
def encodePayload : Payload → Except CodecError Bytes
  | .empty => .ok []
  | .tank t => t.encode
  | .table t => .ok t.encode

/-- The bytes of a message, with a zero as the last one. -/
def encode (p : Packet) : Except CodecError Bytes :=
  (encodePayload p.payload).map fun body => toLittle 4 p.type.tag ++ body ++ [0]

/-- Equality with tank packets compared by number and tables by rows and end. -/
def agrees (p q : Packet) : Bool :=
  p.type = q.type && match p.payload, q.payload with
    | .empty, .empty => true
    | .tank t, .tank u => t.agrees u
    | .table t, .table u => t.agrees u
    | _, _ => false

end Packet

end Intercept
