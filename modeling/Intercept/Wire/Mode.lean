/-!
# Intercept.Wire.Mode

The two small choices that travel with packets: how strictly a tail is held
to its declared length, and which way a packet goes.
-/

namespace Intercept

/-- How to treat a tail that is longer than its declared length. -/
inductive DecodeMode where
  /-- Any difference is an error. -/
  | strict
  /-- What is beyond the declared length is cut off; missing bytes are an error. -/
  | relaxed
deriving DecidableEq, Repr

namespace DecodeMode

/-- The spelling of a mode. -/
def name : DecodeMode → String
  | strict => "strict"
  | relaxed => "relaxed"

/-- The mode with this spelling. -/
def ofName? (s : String) : Option DecodeMode := [strict, relaxed].find? (·.name = s)

end DecodeMode

/-- Which way a packet travels. -/
inductive Direction where
  /-- On an interest: either way. -/
  | unspecified
  | clientToServer
  | serverToClient
deriving DecidableEq, Repr

namespace Direction

/-- Every direction, in the order of the wire codes. -/
def all : List Direction := [unspecified, clientToServer, serverToClient]

/-- The spelling of a direction. -/
def name : Direction → String
  | unspecified => "unspecified"
  | clientToServer => "client_to_server"
  | serverToClient => "server_to_client"

/-- The wire code of a direction. -/
def code (d : Direction) : UInt8 := UInt8.ofNat d.ctorIdx

/-- The direction with this wire code. -/
def ofCode? (c : UInt8) : Option Direction := all[c.toNat]?

/-- The direction with this spelling. -/
def ofName? (s : String) : Option Direction := all.find? (·.name = s)

/-- Whether an interest in direction `d` accepts a packet that travels `packet`. -/
def accepts (d packet : Direction) : Bool := d = unspecified ∨ d = packet

/-- The direction itself, or `other` where it is unspecified. -/
def orElse (d other : Direction) : Direction := if d = unspecified then other else d

theorem ofCode?_code (d : Direction) : ofCode? d.code = some d := by cases d <;> rfl

end Direction

end Intercept
