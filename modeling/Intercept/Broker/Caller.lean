import Intercept.Broker.Delivery

/-!
# Intercept.Broker.Caller

The senders of packets, who wait for what becomes of them. A caller hands in
its packet when it first runs; from then on it waits, and each time it runs it
looks for the outcome and has the current hop judged.
-/

namespace Intercept

/-- Where a caller is. -/
inductive Caller where
  /-- It has not handed in its packet. -/
  | ready (bytes : Bytes) (direction : Direction) (flags : UInt32)
  /-- It waits for the outcome of a chain. -/
  | waiting (chain : UInt64)
deriving DecidableEq, Repr

namespace Caller

/-- What a run of a caller comes to. -/
inductive Progress where
  | done (result : Except Fault Outcome)
  | unfinished (caller : Caller)

/-- Let a caller look for the outcome of its chain. -/
def await (b : Broker) (id : UInt64) : Progress × Broker :=
  match b.poll id with
  | (some result, b) => (.done result, b)
  | (none, b) => (.unfinished (.waiting id), b)

/-- Let a caller run. -/
def run (b : Broker) : Caller → Progress × Broker
  | ready bytes direction flags =>
    match b.submit bytes direction flags with
    | (.error e, b) => (.done (.error e), b)
    | (.ok .passthrough, b) => (.done (.ok .passthrough), b)
    | (.ok (.chain id), b) => await b id
  | waiting id => await b id

/-- The broker after a caller has gone away. -/
def leave (b : Broker) : Caller → Broker
  | ready .. => b
  | waiting id => b.abandon id

end Caller

/-- Callers that have not finished, by number. -/
abbrev Callers := List (Nat × Caller)

namespace Callers

/-- What a run of all callers comes to. -/
structure Round where
  done : List (Nat × Except Fault Outcome) := []
  callers : Callers := []
  broker : Broker

/-- Let all callers run, in order. -/
def run (b : Broker) : Callers → Round
  | [] => { broker := b }
  | (n, caller) :: rest =>
    match caller.run b with
    | (.done result, b) => let round := run b rest; { round with done := (n, result) :: round.done }
    | (.unfinished caller, b) =>
      let round := run b rest
      { round with callers := (n, caller) :: round.callers }

end Callers

end Intercept
