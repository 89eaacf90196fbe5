import Intercept.Broker.Registry
import Intercept.Lane.Frame

/-!
# Intercept.Broker.Chain

One packet on its way through every blocking client that wants to see it.

1. The chain is at one client at a time, its holder, and nobody is asked
   twice: a client is known by its extension and its interest without the
   clauses.
2. A replacement that does not decode is ignored together with its direction.
   A replacement that decodes changes the direction unless it leaves it
   unspecified.
3. After every answer that goes on, the clients are found anew for the packet
   as it now is, so that a replacement of another kind reaches the clients of
   that kind.
-/

namespace Intercept

/-! ## Answers -/

/-- What an extension decides about a packet. -/
inductive Directive where
  /-- Go on with another packet. -/
  | forward (packet : Bytes) (direction : Direction)
  /-- Go on with the packet as it is. -/
  | pass
  /-- Ask nobody else and send this packet. -/
  | finish (packet : Bytes) (direction : Direction)
  /-- Drop the packet. -/
  | cancel
deriving DecidableEq, Repr

/-- The name of a directive. -/
def Directive.name : Directive → String
  | forward .. => "forward"
  | pass => "pass"
  | finish .. => "finish"
  | cancel => "cancel"

/-- An extension's answer to a delivery. -/
structure Response where
  packetId : UInt64
  /-- The interest of the delivery that is answered. -/
  interestId : UInt32
  directive : Directive
deriving DecidableEq, Repr

namespace Response

/-- The directive that a frame spells; deliveries and pushes are no answers. -/
def directiveOf (f : Frame) : Except Fault Directive :=
  match f.op with
  | .forward => .ok (.forward f.packet f.direction)
  | .pass => .ok .pass
  | .finish => .ok (.finish f.packet f.direction)
  | .cancel => .ok .cancel
  | .deliver | .push => .error (.badRequest s!"{f.op.name} is not a disposition")

/-- The answer that a frame spells. -/
def ofFrame (f : Frame) : Except Fault Response :=
  (directiveOf f).map fun d => ⟨f.packetId, f.interestId, d⟩

end Response

/-! ## Chains -/

/-- A packet between the blocking clients that want to see it. -/
structure Chain where
  id : UInt64
  /-- The packet as it now is. -/
  bytes : Bytes
  /-- What those bytes spell. -/
  packet : Packet
  direction : Direction
  flags : UInt32
  /-- How many directives have been applied; stays at `Chain.maxHits` once there. -/
  hitCount : Nat := 0
  /-- The client that is asked. -/
  holder : Option Client := none
  /-- Every client that has been asked, the last one at the end. -/
  visited : List (String × InterestKey) := []
deriving DecidableEq, Repr

/-- What happens next to a chain. -/
inductive Step where
  /-- The packet goes to this client, now the holder. -/
  | dispatch (client : Client)
  /-- Nobody is left: the packet is sent. -/
  | finished
  /-- The packet is dropped. -/
  | cancelled
deriving DecidableEq, Repr

namespace Chain

/-- The largest count of directives that a frame can tell. -/
def maxHits : Nat := UInt32.size - 1

/-- Whether a client has been asked. -/
def hasVisited (c : Chain) (client : Client) : Bool := client.key ∈ c.visited

/-- Whether a client may be asked. -/
def mayAsk (c : Chain) (client : Client) : Bool :=
  client.interest.isBlocking && !c.hasVisited client

/-- Make a client the holder. -/
def visit (c : Chain) (client : Client) : Chain :=
  { c with holder := some client, visited := c.visited ++ [client.key] }

/-- Let nobody hold the packet. -/
def leave (c : Chain) : Chain := { c with holder := none }

/-- Make the first candidate that may be asked the holder. -/
def nextFrom (c : Chain) (candidates : List Client) : Step × Chain :=
  match candidates.find? c.mayAsk with
  | some client => (.dispatch client, c.visit client)
  | none => (.finished, c.leave)

/-- Ask the next of those who want to see the packet as it now is. -/
def goOn (c : Chain) (r : Registry) : Step × Chain := c.nextFrom (r.matching c.packet c.direction)

/-- Take another packet if it decodes. -/
def replace (c : Chain) (mode : DecodeMode) (bytes : Bytes) (direction : Direction) : Chain :=
  match Packet.decode mode bytes with
  | .ok packet => { c with bytes, packet, direction := direction.orElse c.direction }
  | .error _ => c

/-- Count one more directive. -/
def hit (c : Chain) : Chain := { c with hitCount := min (c.hitCount + 1) maxHits }

/-- Apply a directive and find out what happens next. -/
def advance (c : Chain) (r : Registry) (mode : DecodeMode) : Directive → Step × Chain
  | .forward packet direction => (c.hit.replace mode packet direction).goOn r
  | .pass => c.hit.goOn r
  | .finish packet direction => (.finished, (c.hit.replace mode packet direction).leave)
  | .cancel => (.cancelled, c.hit.leave)

/-- The frame that hands the packet to a client. -/
def frameFor (c : Chain) (client : Client) : Frame :=
  { op := .deliver, direction := c.direction, packetId := c.id, interestId := client.interest.id
    hitCount := UInt32.ofNat c.hitCount, packetFlags := c.flags, packet := c.bytes }

/-! ## How long a chain can go on -/

/-- How many clients may still be asked about the packet as it now is. -/
def remaining (c : Chain) (r : Registry) : Nat :=
  ((r.matching c.packet c.direction).filter c.mayAsk).length

/-- A bound on the transitions that are left while nobody takes the packet: two for each client that
may be asked, one more while one is asked. -/
def patience (c : Chain) (r : Registry) : Step → Nat
  | .dispatch _ => 2 * c.remaining r + 1
  | .finished | .cancelled => 2 * c.remaining r

theorem mayAsk_visit (c : Chain) (client d : Client) :
    (c.visit client).mayAsk d = (decide (d.key ≠ client.key) && c.mayAsk d) := by
  by_cases h : d.key = client.key <;> simp [mayAsk, hasVisited, visit, h]

theorem remaining_visit_lt (c : Chain) (r : Registry) {client : Client}
    (h : (r.matching c.packet c.direction).find? c.mayAsk = some client) :
    (c.visit client).remaining r < c.remaining r := by
  have found : client ∈ (r.matching c.packet c.direction).filter c.mayAsk :=
    List.mem_filter.2 ⟨List.mem_of_find?_eq_some h, List.find?_some h⟩
  have fewer :
      (((r.matching c.packet c.direction).filter c.mayAsk).filter (·.key ≠ client.key)).length <
      ((r.matching c.packet c.direction).filter c.mayAsk).length :=
    List.length_filter_lt_length_iff_exists.2 ⟨client, found, by simp⟩
  rwa [List.filter_filter, ← funext (mayAsk_visit c client)] at fewer

theorem patience_goOn_le (c : Chain) (r : Registry) :
    (c.goOn r).2.patience r (c.goOn r).1 ≤ 2 * c.remaining r := by
  cases h : (r.matching c.packet c.direction).find? c.mayAsk with
  | none => simp only [goOn, nextFrom, h]; exact Nat.le_refl _
  | some client =>
    have := remaining_visit_lt c r h
    simp only [goOn, nextFrom, h, patience]
    omega

/-- A fallback in the place of the holder's answer uses the chain's patience up. -/
theorem patience_advance_lt (c : Chain) (r : Registry) (mode : DecodeMode) (client : Client)
    {d : Directive} (h : d = .pass ∨ d = .cancel) :
    (c.advance r mode d).2.patience r (c.advance r mode d).1 < c.patience r (.dispatch client) := by
  have same : c.hit.remaining r = c.remaining r := rfl
  have := patience_goOn_le c.hit r
  obtain rfl | rfl := h
  · simp only [advance, patience] at this ⊢
    omega
  · exact Nat.lt_succ_self _

end Chain

end Intercept
