import Mathlib
import Intercept.Proofs.Broker.Operation
import Intercept.Proofs.Broker.Totals

/-!
# Intercept.Proofs.Broker.Refusal

A refused request leaves the broker as it was, but for counts and the id that
it may have drawn.  The one exception is an observer that answers with a
packet for which there is no room on the outbound path: its answer was the
first, so the copy is answered for, whatever becomes of the packet.

```
b.Kept b'            nothing but counts and the next id differ
OneMore c l b b'     one more is counted under counter c and label l, and nothing else differs
b.Refuses why f a    the answer a is refused: it returns f and is counted under the reason why
b.Choked ext r       r is the answer of an observer, brings a packet, and there is no room
```
-/

namespace Intercept

namespace Broker

/-- Nothing but counts and the next id differ. -/
def Kept (b b' : Broker) : Prop := b' = { b with metrics := b'.metrics, nextId := b'.nextId }

/-- One more is counted under a counter and its one label, and nothing else differs. -/
structure OneMore (c : Counter) (label : String × String) (b b' : Broker) : Prop where
  counts : ∀ c' labels, b'.metrics.count c' labels =
    b.metrics.count c' labels + if c' = c ∧ labels = [label] then 1 else 0
  rest : b' = { b with metrics := { b.metrics with counters := b'.metrics.counters } }

/-- An answer is refused: it returns the fault, is counted under the reason, and changes nothing. -/
structure Refuses (b : Broker) (reason : String) (fault : Fault)
    (answer : Except Fault Unit × Broker) : Prop where
  error : answer.1 = .error fault
  counted : OneMore .rejectedDirectives ("reason", reason) b answer.2
  kept : b.Kept answer.2

/-- An observer answers for its copy with a packet, and there is no room or no taker for it. -/
def Choked (b : Broker) (ext : String) (r : Response) : Prop :=
  b.chain? r.packetId = none ∧
    (∃ c, b.correlation? r.packetId = some c ∧ c.ext = ext ∧ c.interestId = r.interestId) ∧
    r.directive.packet?.isSome ∧
      (b.injected.isOpen = false ∨ b.injected.capacity ≤ b.injected.items.length)

/-- What is counted leaves the rest as it was. -/
theorem kept_count (b : Broker) (counter : Counter) (labels : List (String × String)) :
    b.Kept (b.count counter labels) := rfl

/-- Counting counts one, under this label and no other. -/
theorem oneMore_count (b : Broker) (c : Counter) (label : String × String) :
    OneMore c label b (b.count c [label]) := by
  refine ⟨fun c' labels => ?_, rfl⟩
  have hkey : (c = c' ∧ [label].Perm labels) ↔ c' = c ∧ labels = [label] := by
    rw [List.singleton_perm, eq_comm (a := c), eq_comm (a := [label])]
  have hcount := b.metrics.count_add c' c labels [label] 1
  simp only [hkey] at hcount
  refine hcount.trans ?_
  split
  · rfl
  · exact (UInt64.add_zero _).symm

/-- Whoever counts one more keeps everything but counts. -/
theorem OneMore.kept {c : Counter} {label : String × String} {b b' : Broker}
    (h : OneMore c label b b') : b.Kept b' := by
  have hrest := h.rest
  unfold Kept
  generalize b'.metrics.counters = counters at hrest
  rw [hrest]

/-- Rejecting an answer returns the fault, counts it, and leaves everything else alone. -/
theorem refuses_of_reject {b : Broker} {reason : String} {fault : Fault}
    {answer : Except Fault Unit × Broker} (h : answer = b.reject reason fault) :
    b.Refuses reason fault answer := by
  have hcounted := oneMore_count b .rejectedDirectives ("reason", reason)
  subst h
  exact ⟨rfl, hcounted, hcounted.kept⟩

/-! ## each request -/

/-- A packet is refused for lack of room, and then only its id is gone. -/
theorem enqueue_error {b : Broker} {bytes : Bytes} {direction : Direction} {flags : UInt32}
    {source : String} {fault : Fault}
    (h : (b.enqueue bytes direction flags source).1 = .error fault) :
    (b.injected.isOpen = false ∨ b.injected.capacity ≤ b.injected.items.length) ∧
      (b.enqueue bytes direction flags source).2 = b.drawn := by
  unfold enqueue at h ⊢
  cases hq : b.injected.push? ⟨b.freshId, bytes, direction, flags, 0⟩ with
  | none => exact ⟨(BoundedQueue.push?_eq_none_iff _ _).mp hq, rfl⟩
  | some queue =>
      rw [hq] at h
      cases h

theorem enqueue_of_no_room {b : Broker} (bytes : Bytes) (direction : Direction) (flags : UInt32)
    (source : String)
    (h : b.injected.isOpen = false ∨ b.injected.capacity ≤ b.injected.items.length) :
    b.enqueue bytes direction flags source =
      (.error (.internal "injection queue full or closed"), b.drawn) := by
  unfold enqueue
  rw [(BoundedQueue.push?_eq_none_iff _ _).mpr h]

theorem kept_of_submit_error {b : Broker} {bytes : Bytes} {direction : Direction} {flags : UInt32}
    {fault : Fault} (h : (b.submit bytes direction flags).1 = .error fault) :
    b.Kept (b.submit bytes direction flags).2 := by
  cases b.received bytes direction flags with
  | refused _ hresult => rw [hresult]; exact kept_count _ _ _
  | passes _ _ hresult | starts _ _ hresult =>
      rw [hresult] at h
      cases h

theorem kept_of_inject_error {b : Broker} {bytes : Bytes} {direction : Direction} {flags : UInt32}
    {fault : Fault} (h : (b.inject bytes direction flags).1 = .error fault) :
    b.Kept (b.inject bytes direction flags).2 := by
  unfold inject decode at h ⊢
  cases hp : Packet.decode b.settings.decodeMode bytes with
  | error e => exact kept_count _ _ _
  | ok packet =>
      rw [hp] at h
      dsimp only at h ⊢
      rw [(enqueue_error h).2]
      rfl

/-- Whoever waits is told that the chain is lost only if there is no such chain, and nothing has
been judged. -/
theorem eq_of_poll_error {b : Broker} {id : UInt64} {fault : Fault}
    (hawaited : ∀ a, b.chain? id = some a → a.awaited = true)
    (h : (b.poll id).1 = some (.error fault)) : (b.poll id).2 = b := by
  cases b.looked id with
  | found _ hresult | waits _ _ hresult =>
      rw [hresult] at h
      cases h
  | lost hkept hgone hresult =>
      rw [hresult]
      cases hc : b.chain? id with
      | none =>
          cases b.judged id with
          | timely _ hstate => exact hstate
          | late ha =>
              rw [hc] at ha
              cases ha
      | some a =>
          obtain ⟨_, rfl⟩ := chain?_eq_some hc
          have hanswers := answers_expire (hawaited a hc) hc
          simp [Answers, hkept, hgone] at hanswers

theorem kept_of_respond_error {b : Broker} {ext : String} {r : Response} {fault : Fault}
    (h : (b.respond ext r).1 = .error fault) (hroom : ¬b.Choked ext r) :
    b.Kept (b.respond ext r).2 := by
  cases b.answered ext r with
  | rejected hresult => rw [hresult]; exact kept_count _ _ _
  | held _ _ _ _ hresult =>
      rw [hresult] at h
      cases h
  | @owned c hc ho hsender hasked hresult =>
      rw [hresult, redeem_eq] at h
      cases hd : r.directive.packet? with
      | none =>
          rw [hd] at h
          cases h
      | some p =>
          rw [hd] at h
          have hfull := (enqueue_error h).1
          exact absurd ⟨hc, ⟨c, ho, hsender, hasked⟩, by rw [hd]; rfl, hfull⟩ hroom

/-- The copy is answered for although the packet is refused. -/
theorem respond_of_choked {b : Broker} {ext : String} {r : Response} (h : b.Choked ext r) :
    (b.respond ext r).1 = .error (.internal "injection queue full or closed") ∧
      (b.dropCorrelation r.packetId).Kept (b.respond ext r).2 := by
  obtain ⟨hc, ⟨c, ho, rfl, hi⟩, hpacket, hroom⟩ := h
  obtain ⟨⟨packet, direction⟩, hd⟩ := Option.isSome_iff_exists.mp hpacket
  have htaken :
      let taken := (b.dropCorrelation c.packetId).count .directives [("op", r.directive.name)]
      taken.injected.isOpen = false ∨ taken.injected.capacity ≤ taken.injected.items.length := hroom
  rw [respond_of_owner hc ho hi, redeem_eq, hd, correlation?_eq_some ho]
  rw [correlation?_eq_some ho] at htaken
  dsimp only
  rw [enqueue_of_no_room _ _ _ _ htaken]
  exact ⟨rfl, rfl⟩

/-- **A refused request changes nothing**, in no state and for no reason, but for counts and the
next id; only the answer of an observer that brings a packet for which there is no room is used
up. -/
theorem refused_kept (b : Broker) :
    (∀ bytes direction flags fault, (b.submit bytes direction flags).1 = .error fault →
      b.Kept (b.submit bytes direction flags).2) ∧
    (∀ id fault, (∀ a, b.chain? id = some a → a.awaited = true) →
      (b.poll id).1 = some (.error fault) → (b.poll id).2 = b) ∧
    (∀ bytes direction flags fault, (b.inject bytes direction flags).1 = .error fault →
      b.Kept (b.inject bytes direction flags).2) ∧
    (∀ ext r fault, (b.respond ext r).1 = .error fault → ¬b.Choked ext r →
      b.Kept (b.respond ext r).2) ∧
    (∀ ext r, b.Choked ext r →
      (b.respond ext r).1 = .error (.internal "injection queue full or closed") ∧
      (b.dropCorrelation r.packetId).Kept (b.respond ext r).2) :=
  ⟨fun _ _ _ _ => kept_of_submit_error, fun _ _ => eq_of_poll_error,
    fun _ _ _ _ => kept_of_inject_error,
    fun _ _ _ => kept_of_respond_error, fun _ _ => respond_of_choked⟩

/-- An observer has its copy, and the outbound path is full. -/
def onFullPath : Broker :=
  [Event.register "observer" [{ id := 1, kind := .net .genericText, blocking := .sendAndForget }] 4,
    .submit [2, 0, 0, 0, 0] .clientToServer 0, .inject [2, 0, 0, 0, 0] .clientToServer 0].foldl
    Broker.step (.new { outboundQueue := 1 })

theorem reachable_onFullPath : Reachable { outboundQueue := 1 } onFullPath := Reachable.new.foldl _

/-- Bytes of no type are refused and leave the copy as it is; the answer for it is refused and uses
it up. -/
theorem refused_kept_on_full_path :
    onFullPath.Kept (onFullPath.inject [9, 0, 0, 0, 0] .clientToServer 0).2 ∧
    onFullPath.Choked "observer" ⟨1, 1, .forward [2, 0, 0, 0, 0] .unspecified⟩ ∧
    (onFullPath.dropCorrelation 1).Kept
      (onFullPath.respond "observer" ⟨1, 1, .forward [2, 0, 0, 0, 0] .unspecified⟩).2 := by
  obtain ⟨_, _, hinject, _, hchoked⟩ := refused_kept onFullPath
  have hfull : onFullPath.Choked "observer" ⟨1, 1, .forward [2, 0, 0, 0, 0] .unspecified⟩ := by
    refine ⟨by cbv, ⟨⟨1, "observer", 1, 1, .clientToServer, 0, 0⟩, by cbv, by cbv, by cbv⟩, rfl,
      .inr ?_⟩
    cbv
  exact ⟨hinject _ _ _ (.codec (.unknownType 9)) (by cbv), hfull, (hchoked _ _ hfull).2⟩

/-- The exception is needed: a refused answer of an observer does change the broker. -/
theorem choked_answer_not_kept : ¬∀ settings b, Reachable settings b → ∀ ext r fault,
    (b.respond ext r).1 = .error fault → b.Kept (b.respond ext r).2 := by
  intro h
  have hkept := h _ _ reachable_onFullPath "observer" ⟨1, 1, .forward [2, 0, 0, 0, 0] .unspecified⟩
    (.internal "injection queue full or closed") (by cbv)
  have hsame :
      (onFullPath.respond "observer"
        ⟨1, 1, .forward [2, 0, 0, 0, 0] .unspecified⟩).2.correlations.length =
      onFullPath.correlations.length := congrArg (·.correlations.length) hkept
  have hbefore : onFullPath.correlations.length = 1 := by cbv
  have hafter :
      (onFullPath.respond "observer"
        ⟨1, 1, .forward [2, 0, 0, 0, 0] .unspecified⟩).2.correlations.length = 0 := by cbv
  omega

end Broker

end Intercept
