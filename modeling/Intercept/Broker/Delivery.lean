import Intercept.Broker.Basic

/-!
# Intercept.Broker.Delivery

What the broker does with packets, answers and extensions that come and go.

1. Observers get their copies before anybody is asked.
2. A delivery that cannot be queued counts as a disconnect: the fallback takes
   the place of the answer, and the next client is tried at once.
3. An extension that leaves or is replaced gives up the chains that it holds,
   each with the fallback, and its copies are forgotten.
4. An answer is accepted from the holder of the chain and for the interest of
   its last delivery, and from an observer for its own copy, once.
5. Time is judged for each hop: one that has lasted for the timeout or longer
   gets the fallback.
-/

namespace Intercept.Broker

/-! ## Chains -/

/-- End a chain: count it and keep the outcome for whoever waits. -/
def conclude (b : Broker) (a : ActiveChain) (outcome : Outcome) : Broker :=
  let ended := (b.dropChain a.chain.id).count .chainOutcomes [("outcome", outcome.name)]
  let timed := { ended with metrics := ended.metrics.observe [] ((b.now - a.started) * 1000) }
  if a.awaited then timed.keepOutcome a.chain.id outcome else timed

/-- Carry a chain on until somebody has the packet or it ends. -/
def drive (b : Broker) (a : ActiveChain) (step : Step) : Broker :=
  match step with
  | .finished => b.conclude a (.forward a.chain.outgoing)
  | .cancelled => b.conclude a (.cancelled a.chain.outgoing)
  | .dispatch client =>
    match b.trySend client.ext (a.chain.frameFor client) with
    | some sent => sent.setChain { a with hopStarted := b.now }
    | none =>
      let next := a.chain.advance b.registry b.settings.decodeMode b.settings.onDisconnect.directive
      (b.count .disconnectFallbacks []).drive { a with chain := next.2 } next.1
termination_by a.chain.patience b.registry step
decreasing_by exact Chain.patience_advance_lt _ _ _ _ (Fallback.directive_eq _)

/-- Apply a directive to a chain. -/
def apply (b : Broker) (id : UInt64) (d : Directive) : Broker :=
  match b.chain? id with
  | some a =>
    let next := a.chain.advance b.registry b.settings.decodeMode d
    b.drive { a with chain := next.2 } next.1
  | none => b

/-- Put the fallback in the place of an answer that is overdue. -/
def expire (b : Broker) (id : UInt64) : Broker :=
  match b.chain? id with
  | some a =>
    if b.settings.chainTimeout ≤ b.now - a.hopStarted then
      (b.count .hopTimeouts []).apply id b.settings.onTimeout.directive
    else b
  | none => b

/-! ## Extensions -/

/-- Forget the copies that a session got. -/
def forgetSession (b : Broker) (ext : String) (session : Nat) : Broker :=
  { b with correlations := b.correlations.filter fun c => ¬(c.ext = ext ∧ c.session = session) }

/-- The chains that a session holds. -/
def heldBy (b : Broker) (ext : String) (session : Nat) : List UInt64 :=
  (b.chains.filter (·.chain.isHeldBy ext session)).map (·.chain.id)

/-- Put the fallback in the place of an answer that cannot come any more. -/
def giveUp (b : Broker) (id : UInt64) : Broker :=
  (b.count .disconnectFallbacks []).apply id b.settings.onDisconnect.directive

/-- Give up what a session holds: its copies and its chains. -/
def release (b : Broker) (ext : String) (session : Nat) : Broker :=
  (b.heldBy ext session).foldl giveUp (b.forgetSession ext session)

/-- Enter a registration and give its session a link. -/
def enrolled (b : Broker) (ext : String) (interests : List Interest) (capacity : Nat) : Broker :=
  let registry := b.registry.register ext interests
  { b with registry, links := b.links ++ [⟨registry.lastSession, ext, { capacity }⟩] }

/-- Register an extension with a link of some capacity. The number of its session is the
`lastSession` of the registry. -/
def register (b : Broker) (ext : String) (interests : List Interest) (capacity : Nat) : Broker :=
  match b.registry.get? ext with
  | some old => (b.enrolled ext interests capacity).release ext old.session
  | none => (b.enrolled ext interests capacity).countConnected 1

/-- Finish a removal, given the registration that was found and the registry without it. -/
def removed (b : Broker) : Option (Registration × Registry) → Broker
  | some (old, registry) =>
    let left : Broker := { b with registry }
    (left.countConnected (-1)).release old.ext old.session
  | none => b

/-- Remove an extension, whatever its session. -/
def unregister (b : Broker) (ext : String) : Broker := b.removed (b.registry.unregister? ext)

/-- Remove an extension if this is its session. -/
def unregisterSession (b : Broker) (ext : String) (session : Nat) : Broker :=
  b.removed (b.registry.unregisterSession? ext session)

/-! ## Packets -/

/-- The frame with an observer's copy. -/
def copyFrame (b : Broker) (bytes : Bytes) (direction : Direction) (flags : UInt32)
    (client : Client) : Frame :=
  { op := .deliver, direction, packetId := b.freshId, interestId := client.interest.id
    hitCount := 0
    packetFlags := flags, packet := bytes }

/-- What is remembered of an observer's copy. -/
def copyOwed (b : Broker) (direction : Direction) (flags : UInt32) (client : Client) :
    Correlation :=
  { packetId := b.freshId, ext := client.ext, session := client.session
    interestId := client.interest.id
    direction, flags, created := b.now }

/-- Give an observer its copy, if there is room for it. -/
def notify (b : Broker) (bytes : Bytes) (direction : Direction) (flags : UInt32) (client : Client) :
    Broker :=
  match b.drawn.trySend client.ext (b.copyFrame bytes direction flags client) with
  | some sent =>
    (sent.addCorrelation (b.copyOwed direction flags client)).count .observerDeliveries []
  | none => b.drawn

/-- What a caller is told of its packet at once. -/
inductive Submitted where
  | passthrough
  /-- The outcome is that of this chain. -/
  | chain (id : UInt64)
deriving DecidableEq, Repr

/-- Refuse bytes that do not decode. -/
def decode (b : Broker) (bytes : Bytes) : Except Fault Packet × Broker :=
  match Packet.decode b.settings.decodeMode bytes with
  | .ok p => (.ok p, b)
  | .error e => (.error (.codec e), b.count .decodeErrors [("layer", e.layer.name)])

/-- Start a chain with these candidates. -/
def startChain (b : Broker) (bytes : Bytes) (packet : Packet) (direction : Direction)
    (flags : UInt32) (candidates : List Client) : Broker :=
  let next := Chain.nextFrom { id := b.freshId, bytes, packet, direction, flags } candidates
  let a : ActiveChain := ⟨next.2, true, b.now, b.now⟩
  ((b.drawn.addChain a).count .chainsStarted []).drive a next.1

/-- Take a packet from its sender. -/
def submit (b : Broker) (bytes : Bytes) (direction : Direction) (flags : UInt32) :
    Except Fault Submitted × Broker :=
  match b.decode bytes with
  | (.error e, b) => (.error e, b)
  | (.ok packet, b) =>
    let clients := b.registry.matching packet direction
    let blocking := clients.filter (·.interest.isBlocking)
    let observers := clients.filter (!·.interest.isBlocking)
    let notified := observers.foldl (fun b c => b.notify bytes direction flags c) b
    if blocking = [] then (.ok .passthrough, notified)
    else (.ok (.chain notified.freshId), notified.startChain bytes packet direction flags blocking)

/-- The outcome of a chain, if it has come; the hop is judged first. -/
def poll (b : Broker) (id : UInt64) : Option (Except Fault Outcome) × Broker :=
  let judged := b.expire id
  match judged.outcomes.lookup id with
  | some outcome => (some (.ok outcome), judged.dropOutcome id)
  | none =>
    if (judged.chain? id).isSome then (none, judged)
    else (some (.error (.internal s!"chain {id} dropped without an outcome")), judged)

/-- The broker after the caller of a chain has gone. -/
def abandon (b : Broker) (id : UInt64) : Broker :=
  match b.chain? id with
  | some a => b.setChain { a with awaited := false }
  | none => b.dropOutcome id

/-! ## Answers -/

/-- Refuse an answer. -/
def reject (b : Broker) (reason : String) (fault : Fault) : Except Fault Unit × Broker :=
  (.error fault, b.count .rejectedDirectives [("reason", reason)])

/-- Take an answer that an observer owes for its copy. -/
def redeem (b : Broker) (c : Correlation) (d : Directive) : Except Fault Unit × Broker :=
  let taken := (b.dropCorrelation c.packetId).count .directives [("op", d.name)]
  match d with
  | .forward packet direction | .finish packet direction =>
    taken.enqueue packet (direction.orElse c.direction) c.flags "fire_and_forget"
  | .pass | .cancel => (.ok (), taken)

/-- Take an answer from an extension. -/
def respond (b : Broker) (ext : String) (r : Response) : Except Fault Unit × Broker :=
  let notHolder : Fault := .notChainHolder ext r.packetId.toNat
  match b.chain? r.packetId with
  | some a =>
    if !a.chain.holder.any (·.ext = ext) then b.reject "not_holder" notHolder
    else if !a.chain.holder.any (·.interest.id = r.interestId) then b.reject "stale_hop" notHolder
    else (.ok (), (b.count .directives [("op", r.directive.name)]).apply r.packetId r.directive)
  | none =>
    match b.correlation? r.packetId with
    | some c =>
      if c.ext = ext ∧ c.interestId = r.interestId then b.redeem c r.directive
      else b.reject "not_holder" notHolder
    | none => b.reject "unknown_chain" (.unknownChain r.packetId.toNat)

/-- Take a packet that an extension sends of its own. -/
def inject (b : Broker) (bytes : Bytes) (direction : Direction) (flags : UInt32) :
    Except Fault Unit × Broker :=
  match b.decode bytes with
  | (.error e, b) => (.error e, b)
  | (.ok _, b) => b.enqueue bytes direction flags "push"

/-! ## Housekeeping -/

/-- Forget copies that are too old. -/
def forgetOld (b : Broker) : Broker :=
  { b with
    correlations := b.correlations.filter fun c => b.now - c.created < b.settings.observerTtl }

/-- Drop a chain whose outcome nobody awaits. -/
def dropAbandoned (b : Broker) (id : UInt64) : Broker :=
  (b.dropChain id).count .chainOutcomes [("outcome", "abandoned")]

/-- The chains whose outcome nobody awaits. -/
def abandoned (b : Broker) : List UInt64 := (b.chains.filter (!·.awaited)).map (·.chain.id)

/-- Forget old copies and abandoned chains. -/
def prune (b : Broker) : Broker := b.abandoned.foldl dropAbandoned b.forgetOld

/-- Forget old copies and abandoned chains, and judge every hop that is left. Tells how much was
forgotten. -/
def sweep (b : Broker) : Nat × Broker :=
  (b.correlations.length - b.forgetOld.correlations.length + b.abandoned.length,
    (b.prune.chains.map (·.chain.id)).foldl expire b.prune)

end Intercept.Broker
