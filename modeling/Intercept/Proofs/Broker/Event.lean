import Intercept.Broker.Delivery

/-!
# Intercept.Proofs.Broker.Event

Everything that can happen to a broker, and the states that this leads to.

1. Every event is one turn at the lock.  A caller is a `submit` followed by
   any number of `poll`s, or an `abandon`; the timer of a hop is an `expire`.
2. Housekeeping lets go of the lock between its two halves, so besides the
   undisturbed `sweep` there is its first half, `prune`; the second half is
   some `expire`s.
3. Whoever takes from a queue takes as much as it likes, from the front.
4. The table of chains has no order: `Reachable.reordered` lets it change
   between any two events, so nothing depends on the order in which an
   operation comes across the chains.
-/

namespace Intercept

/-- What can happen to a broker. -/
inductive Event where
  | register (ext : String) (interests : List Interest) (capacity : Nat)
  | unregister (ext : String)
  | unregisterSession (ext : String) (session : Nat)
  | submit (bytes : Bytes) (direction : Direction) (flags : UInt32)
  /-- A caller looks for the outcome of its chain. -/
  | poll (id : UInt64)
  /-- The timer of a hop goes off. -/
  | expire (id : UInt64)
  /-- A caller goes away. -/
  | abandon (id : UInt64)
  | respond (ext : String) (response : Response)
  | inject (bytes : Bytes) (direction : Direction) (flags : UInt32)
  | prune
  | sweep
  | later (ms : Nat)
  | takeFrames (session n : Nat)
  | closeLink (session : Nat)
  | takeInjected (n : Nat)
  | closeInjected

namespace Broker

/-- The broker after an event. -/
def step (b : Broker) : Event → Broker
  | .register ext interests capacity => b.register ext interests capacity
  | .unregister ext => b.unregister ext
  | .unregisterSession ext session => b.unregisterSession ext session
  | .submit bytes direction flags => (b.submit bytes direction flags).2
  | .poll id => (b.poll id).2
  | .expire id => b.expire id
  | .abandon id => b.abandon id
  | .respond ext r => (b.respond ext r).2
  | .inject bytes direction flags => (b.inject bytes direction flags).2
  | .prune => b.prune
  | .sweep => b.sweep.2
  | .later ms => b.later ms
  | .takeFrames session n => b.takeFrames session n
  | .closeLink session => b.closeLink session
  | .takeInjected n => b.takeInjected n
  | .closeInjected => b.closeInjected

/-- The states that a broker can come into. -/
inductive Reachable (settings : BrokerSettings) : Broker → Prop where
  | new : Reachable settings (.new settings)
  | step {b : Broker} (e : Event) : Reachable settings b → Reachable settings (b.step e)
  | reordered {b : Broker} {chains : List ActiveChain} :
      Reachable settings b → chains.Perm b.chains → Reachable settings { b with chains }

/-- Any events may follow. -/
theorem Reachable.foldl {settings : BrokerSettings} {b : Broker} (h : Reachable settings b)
    (es : List Event) : Reachable settings (es.foldl Broker.step b) := by
  induction es generalizing b with
  | nil => exact h
  | cons e es ih => exact ih (h.step e)

end Broker

end Intercept
