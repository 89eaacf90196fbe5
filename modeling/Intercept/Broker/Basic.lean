import Intercept.Broker.Chain
import Intercept.Broker.Metrics
import Intercept.Broker.Queue
import Intercept.Settings

/-!
# Intercept.Broker.Basic

The state of the broker, and the small changes of which every operation is
made.

1. A session takes its frames from a link, a queue that only its own
   registration feeds.
2. Chains, copies for observers and packets sent outside any chain draw their
   ids from one sequence.
3. Nobody waits for a clock: the time is part of the state, in milliseconds.
-/

namespace Intercept

/-- A packet that leaves the broker. -/
structure Outgoing where
  packetId : UInt64
  bytes : Bytes
  direction : Direction
  flags : UInt32
  hitCount : Nat
deriving DecidableEq, Repr

/-- What becomes of a packet. -/
inductive Outcome where
  /-- Nobody had to be asked: the packet goes as it came. -/
  | passthrough
  /-- This packet is sent. -/
  | forward (packet : Outgoing)
  /-- Nothing is sent. -/
  | cancelled (packet : Outgoing)
deriving DecidableEq, Repr

/-- The name of an outcome. -/
def Outcome.name : Outcome → String
  | passthrough => "passthrough"
  | forward _ => "forward"
  | cancelled _ => "cancelled"

/-- The frames on their way to one session. -/
structure Link where
  session : Nat
  ext : String
  queue : BoundedQueue Frame
deriving DecidableEq, Repr

/-- A chain that waits for its holder. -/
structure ActiveChain where
  chain : Chain
  /-- Whether somebody waits for the outcome. -/
  awaited : Bool
  started : Nat
  /-- When the packet went to the holder. -/
  hopStarted : Nat
deriving DecidableEq, Repr

/-- A copy that an observer got, for which an answer may come. -/
structure Correlation where
  packetId : UInt64
  ext : String
  session : Nat
  interestId : UInt32
  direction : Direction
  flags : UInt32
  created : Nat
deriving DecidableEq, Repr

/-- The state of the broker. -/
structure Broker where
  settings : BrokerSettings
  registry : Registry
  links : List Link
  chains : List ActiveChain
  correlations : List Correlation
  /-- Outcomes that their callers have not taken. -/
  outcomes : List (UInt64 × Outcome)
  /-- Packets that are sent outside any chain. -/
  injected : BoundedQueue Outgoing
  /-- The number behind the next id. -/
  nextId : Nat
  now : Nat
  metrics : Metrics
deriving DecidableEq, Repr

namespace Chain

/-- The packet of a chain as it leaves the broker. -/
def outgoing (c : Chain) : Outgoing := ⟨c.id, c.bytes, c.direction, c.flags, c.hitCount⟩

/-- Whether this session holds the chain. -/
def isHeldBy (c : Chain) (ext : String) (session : Nat) : Bool :=
  c.holder.any fun h => h.ext = ext ∧ h.session = session

end Chain

/-- The directive given in the place of an answer. -/
def Fallback.directive : Fallback → Directive
  | pass => .pass
  | cancel => .cancel

theorem Fallback.directive_eq (f : Fallback) : f.directive = .pass ∨ f.directive = .cancel := by
  cases f
  · exact .inl rfl
  · exact .inr rfl

namespace Broker

/-- A broker that nobody has used. -/
def new (settings : BrokerSettings) : Broker :=
  { settings, registry := {}, links := [], chains := [], correlations := [], outcomes := []
    injected := { capacity := settings.outboundQueue }, nextId := 1, now := 0, metrics := {} }

/-! ## Counting -/

/-- Count an event. -/
def count (b : Broker) (c : Counter) (labels : List (String × String)) : Broker :=
  { b with metrics := b.metrics.add c labels 1 }

/-- Count a connected extension, or one less. -/
def countConnected (b : Broker) (n : Int64) : Broker :=
  { b with metrics := b.metrics.addConnected [] n }

/-! ## Ids -/

/-- The id that is drawn next. -/
def freshId (b : Broker) : UInt64 := UInt64.ofNat b.nextId

/-- The broker after the next id has been drawn. -/
def drawn (b : Broker) : Broker := { b with nextId := b.nextId + 1 }

/-! ## Links -/

/-- The link that an extension's registration feeds. -/
def link? (b : Broker) (ext : String) : Option Link := do
  let registration ← b.registry.get? ext
  b.links.find? (·.session = registration.session)

/-- Change the queue of a session. -/
def mapQueue (b : Broker) (session : Nat) (f : BoundedQueue Frame → BoundedQueue Frame) : Broker :=
  { b with links := b.links.map fun l =>
      if l.session = session then { l with queue := f l.queue } else l }

/-- Queue a frame for an extension, or `none` if that is not possible. -/
def trySend (b : Broker) (ext : String) (frame : Frame) : Option Broker := do
  let link ← b.link? ext
  let queue ← link.queue.push? frame
  return b.mapQueue link.session fun _ => queue

/-- The frames queued for a session. -/
def queued (b : Broker) (session : Nat) : List Frame :=
  ((b.links.find? (·.session = session)).map (·.queue.items)).getD []

/-- The broker after a session has taken its oldest `n` frames. -/
def takeFrames (b : Broker) (session n : Nat) : Broker := b.mapQueue session (·.taken n)

/-- The broker after a session has taken its frames. -/
def drainLink (b : Broker) (session : Nat) : Broker := b.mapQueue session .drained

/-- The broker after the taker of a session's frames has gone. -/
def closeLink (b : Broker) (session : Nat) : Broker := b.mapQueue session .closed

/-! ## Tables -/

/-- The active chain with this id. -/
def chain? (b : Broker) (id : UInt64) : Option ActiveChain := b.chains.find? (·.chain.id = id)

/-- Put a chain in. One that has its id already gives way. -/
def addChain (b : Broker) (a : ActiveChain) : Broker :=
  { b with chains := b.chains.filter (·.chain.id ≠ a.chain.id) ++ [a] }

/-- Put a chain in the place of the one with its id. -/
def setChain (b : Broker) (a : ActiveChain) : Broker :=
  { b with chains := b.chains.map fun c => if c.chain.id = a.chain.id then a else c }

/-- Take a chain out. -/
def dropChain (b : Broker) (id : UInt64) : Broker :=
  { b with chains := b.chains.filter (·.chain.id ≠ id) }

/-- The correlation with this id. -/
def correlation? (b : Broker) (id : UInt64) : Option Correlation :=
  b.correlations.find? (·.packetId = id)

/-- Put a correlation in. One that has its id already gives way. -/
def addCorrelation (b : Broker) (c : Correlation) : Broker :=
  { b with correlations := b.correlations.filter (·.packetId ≠ c.packetId) ++ [c] }

/-- Take a correlation out. -/
def dropCorrelation (b : Broker) (id : UInt64) : Broker :=
  { b with correlations := b.correlations.filter (·.packetId ≠ id) }

/-- Keep an outcome until its caller takes it. -/
def keepOutcome (b : Broker) (id : UInt64) (o : Outcome) : Broker :=
  { b with outcomes := b.outcomes ++ [(id, o)] }

/-- Throw away the outcome of a chain. -/
def dropOutcome (b : Broker) (id : UInt64) : Broker :=
  { b with outcomes := b.outcomes.filter (·.1 ≠ id) }

/-! ## The outbound path -/

/-- Send a packet outside any chain. Its id is drawn even if there is no room. -/
def enqueue (b : Broker) (bytes : Bytes) (direction : Direction) (flags : UInt32)
    (source : String) : Except Fault Unit × Broker :=
  match b.injected.push? ⟨b.freshId, bytes, direction, flags, 0⟩ with
  | some injected => (.ok (), { b.drawn with injected }.count .injectedPackets [("source", source)])
  | none => (.error (.internal "injection queue full or closed"), b.drawn)

/-- The broker after the outbound path has taken its oldest `n` packets. -/
def takeInjected (b : Broker) (n : Nat) : Broker := { b with injected := b.injected.taken n }

/-- The broker after the outbound path has taken its packets. -/
def drainInjected (b : Broker) : Broker := { b with injected := b.injected.drained }

/-- The broker after the outbound path has gone. -/
def closeInjected (b : Broker) : Broker := { b with injected := b.injected.closed }

/-! ## Time -/

/-- The broker some milliseconds later. -/
def later (b : Broker) (ms : Nat) : Broker := { b with now := b.now + ms }

end Broker

end Intercept
