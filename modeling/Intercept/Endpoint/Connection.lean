import Intercept.Broker.Caller
import Intercept.Endpoint.Session

/-!
# Intercept.Endpoint.Connection

The endpoint with everyone who is connected to it: extensions at the other
ends of their sockets, and callers who wait for their packets.

1. Everything runs until nothing is left to do: sessions do what is due,
   callers look for their outcomes, and sessions hand out their deliveries.
2. The clock moves in steps of at most 50 ms, and everything runs after each.
3. A peer that reads takes all that it was sent, answers every ping at once,
   and sees the end of the connection behind the last message.
4. A peer that has closed its side gets nothing more than what was sent
   before.
-/

namespace Intercept

/-- A socket with the extension at the other end. -/
structure Connection where
  label : String
  session : Session
  /-- Whether what is sent still reaches the peer. -/
  reachable : Bool := true
  /-- What the peer has not read. -/
  unread : List Message := []
deriving Repr

/-- The endpoint. -/
structure Endpoint where
  settings : SessionSettings
  broker : Broker
  connections : List Connection := []
  callers : Callers := []
  /-- How many callers there have been. -/
  calls : Nat := 0
  /-- The results of callers, until somebody looks. -/
  done : List (Nat × Except Fault Outcome) := []

/-- What a peer has read. -/
structure Reading where
  label : String
  /-- Everything but pings. -/
  messages : List Message
  pings : Nat
  /-- Whether the connection is over behind that. -/
  ended : Bool
deriving Repr

/-- The connection after a turn of its session. -/
def Connection.after (c : Connection) (t : Turn) : Connection :=
  { c with session := t.session, unread := if c.reachable then c.unread ++ t.sent else c.unread }

namespace Endpoint

/-- An endpoint that nobody is connected to. -/
def new (s : Settings) : Endpoint := { settings := s.sessions, broker := .new s.broker }

/-! ## Turns -/

/-- Give each of these connections a turn. -/
def turns (f : Session → Broker → Turn) (b : Broker) : List Connection → List Connection × Broker
  | [] => ([], b)
  | c :: cs =>
    let t := f c.session b
    let (rest, b) := turns f t.broker cs
    (c.after t :: rest, b)

/-- Give every session a turn. -/
def turnAll (e : Endpoint) (f : Session → Broker → Turn) : Endpoint :=
  let (connections, broker) := turns f e.broker e.connections
  { e with connections, broker }

/-- Let all callers run. -/
def runCallers (e : Endpoint) : Endpoint :=
  let round := e.callers.run e.broker
  { e with broker := round.broker, callers := round.callers, done := e.done ++ round.done }

/-- Let everything run until nothing is left to do at this time. -/
def settle (e : Endpoint) : Endpoint :=
  ((e.turnAll fun s b => s.tick e.settings b).runCallers).turnAll Session.deliver

/-! ## Peers -/

/-- The connection of this label. -/
def connection? (e : Endpoint) (label : String) : Option Connection :=
  e.connections.find? (·.label = label)

/-- Put a connection in the place of the one with its label. -/
def setConnection (e : Endpoint) (c : Connection) : Endpoint :=
  { e with connections := e.connections.map fun d => if d.label = c.label then c else d }

/-- Let a session have a turn. -/
def turn (e : Endpoint) (c : Connection) (f : Session → Broker → Turn) : Endpoint :=
  let t := f c.session e.broker
  { e with broker := t.broker }.setConnection (c.after t)

/-- A peer vanishes. -/
def hangUp (e : Endpoint) (label : String) : Endpoint :=
  match e.connection? label with
  | some c =>
    let left := e.turn c fun s b => s.receive b none
    { left with connections := left.connections.filter (·.label ≠ label) }
  | none => e

/-- A peer connects under a name. -/
def connect (e : Endpoint) (label name : String) : Endpoint :=
  let e := e.hangUp label
  let t := Session.start name e.settings e.broker
  let c : Connection := { label, session := t.session, unread := t.sent }
  { e with broker := t.broker, connections := e.connections ++ [c] }

/-- A peer sends a message, or `none` if its connection is not there. A close is the last one, and a
message that the socket does not carry ends the connection for the session. -/
def send (e : Endpoint) (label : String) (m : Message) : Option Endpoint := do
  let c ← e.connection? label
  if c.reachable then
    return e.turn { c with reachable := m ≠ .close } fun s b =>
      s.receive b (if m.isCarried then some m else none)
  else return e

/-- Answer some pings. -/
def answerPings (e : Endpoint) (label : String) : Nat → Endpoint
  | 0 => e
  | n + 1 => ((e.send label (.pong [])).getD e).answerPings label n

/-- A peer reads. -/
def read (e : Endpoint) (c : Connection) : Reading × Endpoint :=
  let messages := c.unread.filter (· ≠ .ping [])
  let pings := c.unread.length - messages.length
  let emptied := e.setConnection { c with unread := [] }
  let left :=
    if c.session.isOver then
      { emptied with connections := emptied.connections.filter (·.label ≠ c.label) }
    else emptied.answerPings c.label pings
  (⟨c.label, messages, pings, c.session.isOver⟩, left)

/-- These peers read. -/
def readEach (e : Endpoint) : List Connection → List Reading × Endpoint
  | [] => ([], e)
  | c :: cs =>
    let (r, e) := e.read c
    let (rs, e) := e.readEach cs
    (r :: rs, e)

/-- Everything runs, then all peers read if they do. -/
def rest (e : Endpoint) (reading : Bool) : List Reading × Endpoint :=
  let settled := e.settle
  if reading then settled.readEach settled.connections else ([], settled)

/-! ## Callers -/

/-- A caller brings a packet; its number is the `calls` of the result. -/
def call (e : Endpoint) (bytes : Bytes) (direction : Direction) (flags : UInt32) : Endpoint :=
  { e with
    calls := e.calls + 1
    callers := e.callers ++ [(e.calls + 1, .ready bytes direction flags)] }

/-! ## Time -/

/-- The longest step of the clock. -/
def stride : Nat := 50

/-- Let time pass. -/
def advance (e : Endpoint) (reading : Bool) (ms : Nat) : List Reading × Endpoint :=
  if ms = 0 then ([], e)
  else
    let step := min stride ms
    let (now, e) := { e with broker := e.broker.later step }.rest reading
    let (later, e) := e.advance reading (ms - step)
    (now ++ later, e)
termination_by ms
decreasing_by simp only [stride]; omega

end Endpoint

end Intercept
