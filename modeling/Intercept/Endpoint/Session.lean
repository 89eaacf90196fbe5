import Intercept.Broker.Delivery
import Intercept.Interest.Reader
import Intercept.Lane.Message

/-!
# Intercept.Endpoint.Session

One extension from the moment its socket is open.

1. It introduces itself by a handshake of version 1 under the name of the
   connection, is asked for its interests, and declares them; then it is
   registered. Everything else ends the session with an error and a close, and
   so does taking too long. Frames are refused until then, but do no harm;
   pings are answered.
2. A registered session hands out its deliveries, takes answers and pushes,
   tells of every request that it refuses, and pings at a fixed interval.
3. A quarter of a second after the last event of any kind the session looks
   whether its extension has been silent for too long.
4. A session ends when its extension leaves or falls silent, or when another
   one of that name is registered. In the end it says so and takes itself out
   of the registry, unless it is no longer the one that is there.
-/

namespace Intercept

/-- The times that a registered session looks at. -/
structure Watch where
  /-- When the extension was last heard. -/
  lastActivity : Nat
  /-- When to ping. -/
  pingDue : Nat
  /-- When to look whether the extension is silent. -/
  checkDue : Nat
deriving DecidableEq, Repr

namespace Watch

/-- How long after an event the session looks for silence, in milliseconds. -/
def checkDelay : Nat := 250

/-- How late a ping may be, in milliseconds, for the next one to keep to the interval. -/
def pingSlack : Nat := 5

/-- The times of a session that has just been registered. -/
def start (now : Nat) : Watch := ⟨now, now, now + checkDelay⟩

/-- The times after an event. -/
def stirred (w : Watch) (now : Nat) : Watch := { w with checkDue := now + checkDelay }

/-- The times after a message of the extension. -/
def heard (w : Watch) (now : Nat) : Watch := { w.stirred now with lastActivity := now }

/-- The times after a ping. One that was late starts the interval anew. -/
def pinged (w : Watch) (now interval : Nat) : Watch :=
  { w.stirred now with
    pingDue := (if w.pingDue + pingSlack < now then now else w.pingDue) + interval }

end Watch

/-- How far a session has come. -/
inductive Phase where
  /-- Waiting for the handshake until the deadline. -/
  | greeting (deadline : Nat)
  /-- Waiting for the interests until the deadline. -/
  | declaring (deadline : Nat)
  /-- Registered under this number. -/
  | serving (number : Nat) (watch : Watch)
  | over
deriving DecidableEq, Repr

/-- One extension's socket, as the broker's side sees it. -/
structure Session where
  /-- The name that the connection was opened with. -/
  name : String
  phase : Phase
deriving DecidableEq, Repr

/-- What becomes of a session and the broker in one event, and what the extension is sent. -/
structure Turn where
  session : Session
  broker : Broker
  sent : List Message := []
deriving Repr

namespace Session

/-- Whether the session has ended. -/
def isOver (s : Session) : Bool := s.phase = .over

/-- A turn that changes nothing. -/
def idle (s : Session) (b : Broker) : Turn := { session := s, broker := b }

/-! ## Before registration -/

/-- End a session that has not been registered. -/
def reject (s : Session) (b : Broker) (fault : Fault) : Turn :=
  { session := { s with phase := .over }
    broker := b.count .handshakeRejections [("code", fault.code.name)]
    sent := [.ofFault fault, .close] }

/-- The session of a connection that has just been opened. -/
def start (name : String) (settings : SessionSettings) (b : Broker) : Turn :=
  let s : Session := ⟨name, .greeting (b.now + settings.handshakeTimeout)⟩
  if name = "" then s.reject b (.badRequest "missing extension name") else s.idle b

/-- Take the first control message. -/
def greet (s : Session) (b : Broker) (deadline : Nat) : Control → Turn
  | .handshake version name =>
    if version ≠ Control.version then s.reject b .unsupportedVersion
    else if name ≠ s.name then
      s.reject b
        (.badRequest s!"handshake name {Text.quoted name} does not match {Text.quoted s.name}")
    else
      { session := { s with phase := .declaring deadline }
        broker := b
        sent := [.ofControl .capabilityRequest] }
  | other => s.reject b (.badRequest s!"expected handshake, got {other.describe}")

/-- Register a session with its interests. -/
def enrol (s : Session) (b : Broker) (interests : List Interest) : Turn :=
  let b := b.register s.name interests b.settings.outboundQueue
  { session := { s with phase := .serving b.registry.lastSession (.start b.now) }
    broker := b
    sent := [.ofControl .connected] }

/-- Take the second control message. -/
def declare (s : Session) (b : Broker) : Control → Turn
  | .capabilityResponse interests =>
    match Interest.compile interests with
    | .ok interests => s.enrol b interests
    | .error fault => s.reject b fault
  | other => s.reject b (.badRequest s!"expected capability_response, got {other.describe}")

/-- Take a message before registration, or `none` for the end of the connection; `next` takes a
control message. -/
def negotiate (s : Session) (b : Broker) (next : Control → Turn) (m : Option Message) : Turn :=
  match m.map Message.decode with
  | none | some (.ok (.control .disconnect)) | some (.ok .close) =>
    s.reject b (.extensionGone s.name)
  | some (.ok (.control c)) => next c
  | some (.ok (.frame _)) => { s.idle b with sent := [.ofFault (.unknownExtension s.name)] }
  | some (.ok (.ping payload)) => { s.idle b with sent := [.pong payload] }
  | some (.ok (.pong _)) => s.idle b
  | some (.error fault) => s.reject b fault

/-! ## Registered -/

/-- End a registered session. -/
def leave (s : Session) (b : Broker) (number : Nat) : Turn :=
  { session := { s with phase := .over }
    broker := (b.unregisterSession s.name number).closeLink number
    sent := [.ofControl .disconnect] }

/-- Take a frame of the extension. -/
def takeFrame (s : Session) (b : Broker) (number : Nat) (f : Frame) : Except Fault Unit × Broker :=
  if !b.registry.isCurrent s.name number then
    (.error (.extensionGone s!"{s.name}: replaced by a newer session"), b)
  else match f.op with
    | .push => b.inject f.packet f.direction f.packetFlags
    | .deliver => (.error (.badRequest "deliver is a broker-to-extension op"), b)
    | _ =>
      match Response.ofFrame f with
      | .ok r => b.respond s.name r
      | .error fault => (.error fault, b)

/-- Go on, and tell of a request that was refused. -/
def reply (s : Session) (r : Except Fault Unit × Broker) : Turn :=
  match r.1 with
  | .ok _ => s.idle r.2
  | .error fault => { s.idle r.2 with sent := [.ofFault fault] }

/-- Take a message of a registered extension. -/
def hear (s : Session) (b : Broker) (number : Nat) (watch : Watch) (m : Message) : Turn :=
  let heard : Session := { s with phase := .serving number (watch.heard b.now) }
  match m.decode with
  | .ok (.frame f) => heard.reply (s.takeFrame b number f)
  | .ok (.control .disconnect) | .ok .close => s.leave b number
  | .ok (.control other) =>
    heard.reply
      (.error (.badRequest s!"unexpected control message after registration: {other.describe}"), b)
  | .ok (.ping payload) => { heard.idle b with sent := [.pong payload] }
  | .ok (.pong _) => heard.idle b
  | .error fault => heard.reply (.error fault, b)

/-! ## Events -/

/-- Take a message of the extension, or `none` for the end of the connection. -/
def receive (s : Session) (b : Broker) (m : Option Message) : Turn :=
  match s.phase, m with
  | .greeting deadline, m => s.negotiate b (s.greet b deadline) m
  | .declaring _, m => s.negotiate b (s.declare b) m
  | .serving number watch, some m => s.hear b number watch m
  | .serving number _, none => s.leave b number
  | .over, _ => s.idle b

/-- Do what is due by now. -/
def tick (s : Session) (settings : SessionSettings) (b : Broker) : Turn :=
  match s.phase with
  | .greeting deadline | .declaring deadline =>
    if deadline ≤ b.now then s.reject b (.badRequest "handshake timed out") else s.idle b
  | .serving number watch =>
    if watch.pingDue ≤ b.now then
      { session := { s with phase := .serving number (watch.pinged b.now settings.pingInterval) }
        broker := b
        sent := [.ping []] }
    else if watch.checkDue ≤ b.now then
      if settings.idleTimeout ≤ b.now - watch.lastActivity then
        let left := s.leave b number
        { left with sent := .ofFault (.extensionGone s!"{s.name}: idle timeout") :: left.sent }
      else { s with phase := .serving number (watch.stirred b.now) }.idle b
    else s.idle b
  | .over => s.idle b

/-- Hand out what is queued, and end if nothing more can come. -/
def deliver (s : Session) (b : Broker) : Turn :=
  match s.phase with
  | .serving number watch =>
    let frames := b.queued number
    let told := frames.map Message.ofFrame
    if b.registry.isCurrent s.name number then
      let watch := if frames = [] then watch else watch.stirred b.now
      { session := { s with phase := .serving number watch }
        broker := b.drainLink number
        sent := told }
    else
      let left := s.leave b number
      { left with sent := told ++ left.sent }
  | _ => s.idle b

end Session

end Intercept
