import Intercept.Lane.Control
import Intercept.Lane.Frame

/-!
# Intercept.Lane.Message

What an extension's socket carries: control messages as texts, frames as
binary messages, and the socket's own pings, pongs and closes.
-/

namespace Intercept

/-- A message as the socket hands it over. -/
inductive Message where
  | text (s : String)
  | binary (b : Bytes)
  | ping (payload : Bytes)
  | pong (payload : Bytes)
  | close
deriving DecidableEq, Repr

/-- A message as the broker understands it. -/
inductive Inbound where
  | control (m : Control)
  | frame (f : Frame)
  | ping (payload : Bytes)
  | pong (payload : Bytes)
  | close
deriving Repr

namespace Message

/-- The longest payload of a ping or a pong. -/
def maxPayload : Nat := 125

/-- Whether a socket carries the message: one with too long a payload breaks the connection. -/
def isCarried : Message → Bool
  | ping payload | pong payload => payload.length ≤ maxPayload
  | _ => true

/-- What a message means. -/
def decode : Message → Except Fault Inbound
  | text s => (Control.decode s).map .control
  | binary b =>
    match Frame.decode b with
    | .ok f => .ok (.frame f)
    | .error e => .error (.codec e)
  | ping payload => .ok (.ping payload)
  | pong payload => .ok (.pong payload)
  | close => .ok .close

/-- The message that carries a control message. -/
def ofControl (m : Control) : Message := text m.encode

/-- The message that carries a frame. -/
def ofFrame (f : Frame) : Message := binary f.encode

/-- The message that tells of a fault. -/
def ofFault (f : Fault) : Message := ofControl (.ofFault f)

end Message

end Intercept
