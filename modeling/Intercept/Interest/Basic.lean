import Intercept.Fault
import Intercept.Interest.Clause

/-!
# Intercept.Interest.Basic

Interests: which packets an extension wants to see, and how urgently.

1. An interest in a tank sub-type sees that sub-type only; one in the packet
   type `TANK_PACKET` sees every tank packet.
2. A blocking interest holds the packet until the extension answers; the other
   kind gets a copy.
3. A list of interests is accepted if no clause is pointless and no two
   interests have one id, because the id names the hop in an answer. The first
   interest that breaks either rule is reported.
-/

namespace Intercept

/-- Which packets an interest listens to. -/
inductive InterestKind where
  | net (t : PacketType)
  | tank (t : TankType)
deriving DecidableEq, Repr

namespace InterestKind

/-- The name of a kind. -/
def name : InterestKind → String
  | net t => "net:" ++ t.name
  | tank t => "tank:" ++ t.name

/-- Whether packets of this kind include `p`. -/
def covers (k : InterestKind) (p : Packet) : Bool :=
  match k with
  | net t => t = p.type
  | tank t => p.type = .tankPacket ∧ p.tank?.map (·.type) = some t

end InterestKind

/-- Whether a packet waits for the extension. -/
inductive Blocking where
  | block
  | sendAndForget
deriving DecidableEq, Repr

namespace Blocking

/-- The spelling of a mode. -/
def name : Blocking → String
  | block => "block"
  | sendAndForget => "send_and_forget"

/-- The mode with this spelling. -/
def ofName? (s : String) : Option Blocking := [block, sendAndForget].find? (·.name = s)

end Blocking

/-- One subscription. -/
structure Interest where
  /-- Chosen by the extension, repeated in deliveries. -/
  id : UInt32
  kind : InterestKind
  /-- Higher goes first. -/
  priority : Int := 0
  blocking : Blocking := .block
  direction : Direction := .unspecified
  /-- Clauses that all have to hold. -/
  predicate : List Clause := []
deriving DecidableEq, Repr

/-- What makes two interests of one extension the same for a chain. -/
structure InterestKey where
  kind : InterestKind
  priority : Int
  blocking : Blocking
  direction : Direction
  id : UInt32
deriving DecidableEq, Repr

namespace Interest

/-- The identity of an interest within its extension: everything but the clauses. -/
def key (i : Interest) : InterestKey := ⟨i.kind, i.priority, i.blocking, i.direction, i.id⟩

/-- Whether packets wait for the extension. -/
def isBlocking (i : Interest) : Bool := i.blocking = .block

/-- Whether a packet that travels `direction` passes the direction and every clause. -/
def accepts (i : Interest) (p : Packet) (direction : Direction) : Bool :=
  i.direction.accepts direction && i.predicate.all (·.eval p)

/-- Refuse an interest with a pointless clause. -/
def validate (i : Interest) : Except Fault Unit :=
  match i.predicate.findSome? Clause.defect? with
  | some defect => .error (.badRequest s!"interest {i.id}: {defect.message}")
  | none => .ok ()

/-- Refuse a list of interests that breaks a rule, given the ids before it. -/
def checkFrom (seen : List UInt32) : List Interest → Except Fault Unit
  | [] => .ok ()
  | i :: is => do
    i.validate
    if i.id ∈ seen then throw (.badRequest s!"duplicate interest id {i.id}")
    checkFrom (i.id :: seen) is

/-- Refuse a list of interests that breaks a rule. -/
def check (is : List Interest) : Except Fault Unit := checkFrom [] is

end Interest

end Intercept
