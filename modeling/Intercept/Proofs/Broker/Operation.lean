import Intercept.Proofs.Broker.Carry
import Intercept.Proofs.Broker.Journal

/-!
# Intercept.Proofs.Broker.Operation

What an operation comes to, and what it adds to the journal.

```
b.Judged id              a hop is judged: it has lasted for too long, or it has not
b.Looked id              a caller looks: there is an outcome, or the chain waits, or it is lost
b.Received bytes d f     a packet is handed in: it is refused, goes as it came, or starts a chain
b.Answered ext r         an answer is rejected, or taken from the holder of a chain or the owner
                         of a copy
```

What is shown of every operation goes by these cases, so it does not depend on
the order in which an operation asks its questions.
-/

namespace Intercept.Broker

variable {b : Broker}

/-! ## hops -/

/-- What becomes of a hop that is judged. -/
inductive Judged (b : Broker) (id : UInt64) : Prop where
  | timely (young : ∀ a, b.chain? id = some a → b.now - a.hopStarted < b.settings.chainTimeout)
      (state : b.expire id = b) (notes : b.expireNotes id = [])
  | late {a : ActiveChain} (chain : b.chain? id = some a)
      (due : b.settings.chainTimeout ≤ b.now - a.hopStarted)
      (state : b.expire id =
        (b.count .hopTimeouts []).apply id b.settings.onTimeout.directive)
      (notes : b.expireNotes id =
        (b.count .hopTimeouts []).applyNotes id .timeout b.settings.onTimeout.directive)

theorem judged (b : Broker) (id : UInt64) : b.Judged id := by
  cases hc : b.chain? id with
  | none =>
      exact .timely (fun a ha => by rw [hc] at ha; cases ha) (by rw [expire, hc])
        (by rw [expireNotes, hc])
  | some a =>
      by_cases hdue : b.settings.chainTimeout ≤ b.now - a.hopStarted
      · exact .late hc hdue (by simp only [expire, hc, if_pos hdue])
          (by simp only [expireNotes, hc, if_pos hdue])
      · refine .timely (fun x hx => ?_) (by simp only [expire, hc, if_neg hdue])
          (by simp only [expireNotes, hc, if_neg hdue])
        rw [hc] at hx
        cases hx
        exact Nat.lt_of_not_le hdue

/-- What a caller finds when it looks; the hop is judged first. -/
inductive Looked (b : Broker) (id : UInt64) : Prop where
  | found {outcome : Outcome} (kept : (b.expire id).outcomes.lookup id = some outcome)
      (result : b.poll id = (some (.ok outcome), (b.expire id).dropOutcome id))
  | waits (kept : (b.expire id).outcomes.lookup id = none)
      (chain : ((b.expire id).chain? id).isSome) (result : b.poll id = (none, b.expire id))
  | lost (kept : (b.expire id).outcomes.lookup id = none)
      (chain : (b.expire id).chain? id = none)
      (result : b.poll id =
        (some (.error (.internal s!"chain {id} dropped without an outcome")), b.expire id))

theorem looked (b : Broker) (id : UInt64) : b.Looked id := by
  cases ho : (b.expire id).outcomes.lookup id with
  | some outcome => exact .found ho (by simp only [poll, ho])
  | none =>
      cases hc : (b.expire id).chain? id with
      | some a => exact .waits ho (by rw [hc]; rfl) (by simp only [poll, ho, hc]; rfl)
      | none => exact .lost ho hc (by simp only [poll, ho, hc]; rfl)

/-- Besides judging the hop, looking for an outcome can only take it. -/
theorem snd_poll (b : Broker) (id : UInt64) :
    (b.poll id).2 = b.expire id ∨ (b.poll id).2 = (b.expire id).dropOutcome id := by
  cases b.looked id with
  | found _ hresult => exact .inr (by rw [hresult])
  | waits _ _ hresult => exact .inl (by rw [hresult])
  | lost _ _ hresult => exact .inl (by rw [hresult])

/-! ## packets -/

/-- Those of the clients found for a packet that get copies. -/
def observersOf (b : Broker) (packet : Packet) (direction : Direction) : List Client :=
  (b.registry.matching packet direction).filter (!·.interest.isBlocking)

/-- Those of the clients found for a packet that may hold it. -/
def candidates (b : Broker) (packet : Packet) (direction : Direction) : List Client :=
  (b.registry.matching packet direction).filter (·.interest.isBlocking)

/-- The broker after a packet has been copied. -/
def copied (b : Broker) (bytes : Bytes) (packet : Packet) (direction : Direction) (flags : UInt32) :
    Broker :=
  (b.observersOf packet direction).foldl (fun b c => b.notify bytes direction flags c) b

/-- What giving copies to these observers adds to the journal. -/
def copyNotes (b : Broker) (bytes : Bytes) (direction : Direction) (flags : UInt32)
    (observers : List Client) : List Note :=
  foldNotes (fun b c => b.notify bytes direction flags c)
    (fun b c => b.notifyNotes bytes direction flags c) b observers

theorem told_copied (b : Broker) (bytes : Bytes) (packet : Packet) (direction : Direction)
    (flags : UInt32) : Told b (b.copied bytes packet direction flags) :=
  told_foldl b bytes direction flags _

theorem chain?_copyNotes (b : Broker) (bytes : Bytes) (direction : Direction) (flags : UInt32)
    (observers : List Client) :
    ∀ n ∈ b.copyNotes bytes direction flags observers, n.chain? = none := by
  intro n hn
  obtain ⟨_, _, _, hn⟩ := exists_of_mem_foldNotes hn
  exact chain?_notifyNotes _ _ _ _ _ n hn

theorem mem_observersOf {packet : Packet} {direction : Direction} {c : Client}
    (hc : c ∈ b.observersOf packet direction) :
    c ∈ b.registry.matching packet direction ∧ c.interest.isBlocking = false := by
  simpa [observersOf] using hc

theorem mem_candidates {packet : Packet} {direction : Direction} {c : Client}
    (hc : c ∈ b.candidates packet direction) :
    c ∈ b.registry.matching packet direction ∧ c.interest.isBlocking = true := by
  simpa [candidates] using hc

theorem submit_eq {bytes : Bytes} {packet : Packet}
    (hp : Packet.decode b.settings.decodeMode bytes = .ok packet) (direction : Direction)
    (flags : UInt32) :
    b.submit bytes direction flags =
      if b.candidates packet direction = [] then
        (.ok .passthrough, b.copied bytes packet direction flags)
      else
        (.ok (.chain (b.copied bytes packet direction flags).freshId),
          (b.copied bytes packet direction flags).startChain bytes packet direction flags
            (b.candidates packet direction)) := by
  simp only [submit, decode, hp]
  rfl

theorem submitNotes_eq {bytes : Bytes} {packet : Packet}
    (hp : Packet.decode b.settings.decodeMode bytes = .ok packet) (direction : Direction)
    (flags : UInt32) :
    b.submitNotes bytes direction flags =
      if b.candidates packet direction = [] then
        b.copyNotes bytes direction flags (b.observersOf packet direction)
      else
        b.copyNotes bytes direction flags (b.observersOf packet direction) ++
          (b.copied bytes packet direction flags).startNotes bytes packet direction flags
            (b.candidates packet direction) := by
  simp only [submitNotes, decode, hp]
  rfl

/-- What becomes of a packet that is handed in. -/
inductive Received (b : Broker) (bytes : Bytes) (direction : Direction) (flags : UInt32) :
    Prop where
  | refused {e : CodecError} (decodes : Packet.decode b.settings.decodeMode bytes = .error e)
      (result : b.submit bytes direction flags =
        (.error (.codec e), b.count .decodeErrors [("layer", e.layer.name)]))
      (notes : b.submitNotes bytes direction flags = [])
  | passes {packet : Packet} (decodes : Packet.decode b.settings.decodeMode bytes = .ok packet)
      (nobody : b.candidates packet direction = [])
      (result : b.submit bytes direction flags =
        (.ok .passthrough, b.copied bytes packet direction flags))
      (notes : b.submitNotes bytes direction flags =
        b.copyNotes bytes direction flags (b.observersOf packet direction))
  | starts {packet : Packet} (decodes : Packet.decode b.settings.decodeMode bytes = .ok packet)
      (somebody : b.candidates packet direction ≠ [])
      (result : b.submit bytes direction flags =
        (.ok (.chain (b.copied bytes packet direction flags).freshId),
          (b.copied bytes packet direction flags).startChain bytes packet direction flags
            (b.candidates packet direction)))
      (notes : b.submitNotes bytes direction flags =
        b.copyNotes bytes direction flags (b.observersOf packet direction) ++
          (b.copied bytes packet direction flags).startNotes bytes packet direction flags
            (b.candidates packet direction))

theorem received (b : Broker) (bytes : Bytes) (direction : Direction) (flags : UInt32) :
    b.Received bytes direction flags := by
  cases hp : Packet.decode b.settings.decodeMode bytes with
  | error e =>
      exact .refused hp (by simp only [submit, decode, hp]) (by simp only [submitNotes, decode, hp])
  | ok packet =>
      by_cases hnobody : b.candidates packet direction = []
      · exact .passes hp hnobody (by rw [submit_eq hp, if_pos hnobody])
          (by rw [submitNotes_eq hp, if_pos hnobody])
      · exact .starts hp hnobody (by rw [submit_eq hp, if_neg hnobody])
          (by rw [submitNotes_eq hp, if_neg hnobody])

/-! ## answers -/

/-- The holder's answer is taken. -/
theorem respond_of_holder {a : ActiveChain} {r : Response} {holder : Client}
    (ha : b.chain? r.packetId = some a) (hh : a.chain.holder = some holder)
    (hid : holder.interest.id = r.interestId) :
    b.respond holder.ext r = (.ok (),
      (b.count .directives [("op", r.directive.name)]).apply r.packetId r.directive) := by
  unfold respond
  simp [ha, hh, hid]

/-- An observer's answer is taken. -/
theorem respond_of_owner {r : Response} {c : Correlation}
    (hc : b.chain? r.packetId = none) (ho : b.correlation? r.packetId = some c)
    (hi : c.interestId = r.interestId) : b.respond c.ext r = b.redeem c r.directive := by
  unfold respond
  simp only [hc, ho, hi, and_self, ↓reduceIte]

/-- What becomes of an answer. -/
inductive Answered (b : Broker) (ext : String) (r : Response) : Prop where
  | rejected {reason : String} {fault : Fault} (result : b.respond ext r = b.reject reason fault)
      (notes : b.respondNotes ext r = [])
  | held {a : ActiveChain} {holder : Client} (chain : b.chain? r.packetId = some a)
      (holds : a.chain.holder = some holder) (sender : holder.ext = ext)
      (asked : holder.interest.id = r.interestId)
      (result : b.respond ext r = (.ok (),
        (b.count .directives [("op", r.directive.name)]).apply r.packetId r.directive))
      (notes : b.respondNotes ext r =
        (b.count .directives [("op", r.directive.name)]).applyNotes r.packetId
          (.answer ext r.interestId) r.directive)
  | owned {c : Correlation} (chain : b.chain? r.packetId = none)
      (copy : b.correlation? r.packetId = some c) (sender : c.ext = ext)
      (asked : c.interestId = r.interestId) (result : b.respond ext r = b.redeem c r.directive)
      (notes : b.respondNotes ext r = b.redeemNotes c r.directive)

theorem answered (b : Broker) (ext : String) (r : Response) : b.Answered ext r := by
  cases hc : b.chain? r.packetId with
  | some a =>
      by_cases hext : a.chain.holder.any (·.ext = ext)
      · by_cases hid : a.chain.holder.any (·.interest.id = r.interestId)
        · cases hh : a.chain.holder with
          | none => simp [hh] at hext
          | some holder =>
              exact .held hc hh (by simpa [hh] using hext) (by simpa [hh] using hid)
                (by simp only [respond, hc, hext, hid]; rfl)
                (by simp only [respondNotes, hc, hext, hid]; rfl)
        · exact .rejected (by simp only [respond, hc, hext, hid]; rfl)
            (by simp only [respondNotes, hc, hext, hid]; rfl)
      · exact .rejected (by simp only [respond, hc, hext]; rfl)
          (by simp only [respondNotes, hc, hext]; rfl)
  | none =>
      cases ho : b.correlation? r.packetId with
      | none =>
          exact .rejected (by simp only [respond, hc, ho]; rfl)
            (by simp only [respondNotes, hc, ho])
      | some c =>
          by_cases howner : c.ext = ext ∧ c.interestId = r.interestId
          · exact .owned hc ho howner.1 howner.2 (by simp only [respond, hc, ho, if_pos howner])
              (by simp only [respondNotes, hc, ho, if_pos howner])
          · exact .rejected (by simp only [respond, hc, ho, if_neg howner]; rfl)
              (by simp only [respondNotes, hc, ho, if_neg howner])

end Intercept.Broker
