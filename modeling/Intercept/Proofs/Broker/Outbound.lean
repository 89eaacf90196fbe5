import Mathlib
import Intercept.Proofs.Broker.Move

/-!
# Intercept.Proofs.Broker.Outbound

What gets on the outbound path.  There are two ways: an extension sends a
packet of its own, which is decoded first, or an observer answers for its copy,
and then nobody looks at the bytes.

```
b.Enters e out       the event e puts the packet out on the path
b.Unchecked e out    e is the answer with which an observer sends out
Decodes mode bytes   the bytes are a packet
```

So whatever is on the path decodes, unless an observer sent it; and whatever
an observer sends gets on the path, be it a packet or not.
-/

namespace Intercept

/-- The bytes are a packet. -/
def Decodes (mode : DecodeMode) (bytes : Bytes) : Prop := ∃ p, Packet.decode mode bytes = .ok p

namespace Broker

/-- The event puts this packet on the outbound path. -/
def Enters (b : Broker) (e : Event) (out : Outgoing) : Prop :=
  b.injected.push? out = some (b.step e).injected

/-- The event is the answer with which an observer sends this packet, and there is room for it. -/
def Unchecked (b : Broker) (e : Event) (out : Outgoing) : Prop :=
  ∃ ext r c direction, e = .respond ext r ∧ b.chain? r.packetId = none ∧
    b.correlation? r.packetId = some c ∧
    c.ext = ext ∧ c.interestId = r.interestId ∧ r.directive.packet? = some (out.bytes, direction) ∧
    out = ⟨b.freshId, out.bytes, direction.orElse c.direction, c.flags, 0⟩ ∧
      (b.injected.push? out).isSome

/-- At most one packet gets on the path at a time. -/
theorem Enters.unique {b : Broker} {e : Event} {out out' : Outgoing} (h : b.Enters e out)
    (h' : b.Enters e out') : out = out' := by
  have hitems := BoundedQueue.items_of_push? h
  rw [BoundedQueue.items_of_push? h'] at hitems
  have hlast := List.append_cancel_left hitems
  cases hlast
  rfl

theorem not_enters_of_sublist {b : Broker} {e : Event} {out : Outgoing}
    (h : (b.step e).injected.items.Sublist b.injected.items) : ¬b.Enters e out := by
  intro henters
  have hlength := h.length_le
  rw [BoundedQueue.items_of_push? henters, List.length_append, List.length_singleton] at hlength
  omega

/-! ## who leaves the path alone -/

theorem injected_register (b : Broker) (ext : String) (is : List Interest) (capacity : Nat) :
    (b.register ext is capacity).injected = b.injected := by
  unfold register
  split
  · exact (carried_release _ _ _).injected
  · rfl

theorem injected_removed (b : Broker) (found : Option (Registration × Registry)) :
    (b.removed found).injected = b.injected := by
  unfold removed
  split
  · exact (carried_release _ _ _).injected
  · rfl

theorem injected_submit (b : Broker) (bytes : Bytes) (direction : Direction) (flags : UInt32) :
    (b.submit bytes direction flags).2.injected = b.injected := by
  cases b.received bytes direction flags with
  | refused _ hresult => rw [hresult]; rfl
  | passes _ _ hresult => rw [hresult]; exact (told_copied _ _ _ _ _).injected
  | starts _ _ hresult =>
      rw [hresult]
      exact (carried_drive _ _ _).injected.trans (told_copied _ _ _ _ _).injected

theorem injected_poll (b : Broker) (id : UInt64) : (b.poll id).2.injected = b.injected := by
  have hjudged := (carried_expire b id).injected
  cases snd_poll b id with
  | inl h => rw [h]; exact hjudged
  | inr h => rw [h]; exact hjudged

/-! ## the two ways -/

/-- A packet that is sent gets on the path if there is room. -/
theorem injected_enqueue (b : Broker) (bytes : Bytes) (direction : Direction) (flags : UInt32)
    (source : String) :
    (b.enqueue bytes direction flags source).2.injected =
      (b.injected.push? ⟨b.freshId, bytes, direction, flags, 0⟩).getD b.injected := by
  unfold enqueue
  cases b.injected.push? ⟨b.freshId, bytes, direction, flags, 0⟩ with
  | none => rfl
  | some queue => rfl

theorem injected_redeem (b : Broker) (c : Correlation) (d : Directive) :
    (b.redeem c d).2.injected =
      match d.packet? with
      | some (packet, direction) =>
        (b.injected.push? ⟨b.freshId, packet, direction.orElse c.direction, c.flags, 0⟩).getD
          b.injected
      | none => b.injected := by
  rw [redeem_eq]
  cases d.packet? with
  | none => rfl
  | some p => exact injected_enqueue _ _ _ _ _

theorem Unchecked.enters {b : Broker} {e : Event} {out : Outgoing} (h : b.Unchecked e out) :
    b.Enters e out := by
  obtain ⟨ext, r, c, direction, rfl, hc, ho, rfl, hi, hd, hout, hroom⟩ := h
  obtain ⟨queue, hq⟩ := Option.isSome_iff_exists.mp hroom
  unfold Enters step
  dsimp only
  rw [respond_of_owner hc ho hi, injected_redeem, hd]
  dsimp only
  rw [← hout, hq]
  rfl

/-- Any other answer leaves the path alone. -/
theorem injected_respond (b : Broker) (ext : String) (r : Response) :
    (b.respond ext r).2.injected = b.injected ∨ ∃ out, b.Unchecked (.respond ext r) out := by
  cases b.answered ext r with
  | rejected hresult => rw [hresult]; exact .inl rfl
  | held _ _ _ _ hresult => rw [hresult]; exact .inl (carried_apply _ _ _).injected
  | @owned c hc ho howner hi hresult =>
      rw [hresult, injected_redeem]
      cases hd : r.directive.packet? with
      | none => exact .inl rfl
      | some p =>
          obtain ⟨packet, direction⟩ := p
          dsimp only
          cases hq : b.injected.push?
              ⟨b.freshId, packet, direction.orElse c.direction, c.flags, 0⟩ with
          | none => exact .inl rfl
          | some queue =>
              exact .inr ⟨_, _, r, c, direction, rfl, hc, ho, howner, hi, hd, rfl, by rw [hq]; rfl⟩

theorem inject_of_decode {b : Broker} {bytes : Bytes} {packet : Packet} (direction : Direction)
    (flags : UInt32) (hp : Packet.decode b.settings.decodeMode bytes = .ok packet) :
    b.inject bytes direction flags = b.enqueue bytes direction flags "push" := by
  unfold inject decode
  rw [hp]

/-- A packet of an extension's own gets on the path only if it decodes. -/
theorem injected_inject (b : Broker) (bytes : Bytes) (direction : Direction) (flags : UInt32) :
    (b.inject bytes direction flags).2.injected = b.injected ∨
      ∃ out, b.Enters (.inject bytes direction flags) out ∧
        Decodes b.settings.decodeMode out.bytes := by
  cases hp : Packet.decode b.settings.decodeMode bytes with
  | error e =>
      left
      unfold inject decode
      rw [hp]
      rfl
  | ok packet =>
      unfold Enters step
      dsimp only
      rw [inject_of_decode direction flags hp, injected_enqueue]
      cases hq : b.injected.push? ⟨b.freshId, bytes, direction, flags, 0⟩ with
      | none => exact .inl rfl
      | some queue => exact .inr ⟨⟨b.freshId, bytes, direction, flags, 0⟩, hq, packet, hp⟩

/-- **An event takes packets from the path, or puts one on it.** -/
theorem injected_step (b : Broker) (e : Event) :
    (b.step e).injected.items.Sublist b.injected.items ∨
      ∃ out, b.Enters e out ∧ (Decodes b.settings.decodeMode out.bytes ∨ b.Unchecked e out) := by
  have hsame : (b.step e).injected = b.injected →
      (b.step e).injected.items.Sublist b.injected.items := by
    intro h
    rw [h]
  cases e with
  | register ext is capacity => exact .inl (hsame (injected_register b ext is capacity))
  | unregister ext => exact .inl (hsame (injected_removed b _))
  | unregisterSession ext session => exact .inl (hsame (injected_removed b _))
  | submit bytes direction flags => exact .inl (hsame (injected_submit b bytes direction flags))
  | poll id => exact .inl (hsame (injected_poll b id))
  | expire id => exact .inl (hsame (carried_expire b id).injected)
  | abandon id => exact .inl (hsame (carried_abandon b id).injected)
  | respond ext r =>
      cases injected_respond b ext r with
      | inl h => exact .inl (hsame h)
      | inr h =>
          obtain ⟨out, hout⟩ := h
          exact .inr ⟨out, hout.enters, .inr hout⟩
  | inject bytes direction flags =>
      cases injected_inject b bytes direction flags with
      | inl h => exact .inl (hsame h)
      | inr h =>
          obtain ⟨out, hout, hdecodes⟩ := h
          exact .inr ⟨out, hout, .inl hdecodes⟩
  | prune => exact .inl (hsame (carried_prune b).injected)
  | sweep => exact .inl (hsame (carried_sweep b).injected)
  | later | takeFrames | closeLink => exact .inl (hsame rfl)
  | takeInjected n => exact .inl (List.drop_sublist n _)
  | closeInjected => exact .inl (List.nil_sublist _)

/-! ## every run -/

/-- Every packet on the path was put there. -/
theorem Run.exists_enters {settings : BrokerSettings} {J : List Note} {b : Broker}
    (h : Run settings J b) :
    ∀ out ∈ b.injected.items, ∃ J' b' e, Run settings J' b' ∧ J' ++ [Note.happened e] <+: J ∧
      b'.Enters e out := by
  induction h with
  | new =>
      intro out hout
      cases hout
  | @step J b e hrun ih =>
      intro out hout
      have hold : out ∈ b.injected.items → ∃ J' b' e', Run settings J' b' ∧
          J' ++ [Note.happened e'] <+: J ++ .happened e :: b.notes e ∧ b'.Enters e' out := by
        intro hmem
        obtain ⟨J', b', e', hrun', hprefix, henters⟩ := ih out hmem
        exact ⟨J', b', e', hrun', hprefix.trans (List.prefix_append _ _), henters⟩
      cases injected_step b e with
      | inl htaken => exact hold (htaken.subset hout)
      | inr hput =>
          obtain ⟨new, hnew, _⟩ := hput
          rw [BoundedQueue.items_of_push? hnew, List.mem_append, List.mem_singleton] at hout
          cases hout with
          | inl hmem => exact hold hmem
          | inr he =>
              subst he
              refine ⟨J, b, e, hrun, ⟨b.notes e, ?_⟩, hnew⟩
              rw [List.append_assoc, List.singleton_append]
  | reordered _ _ ih => exact ih

/-- **What is on the outbound path.**  Over every run, each packet on the path was put there by some
event; what an event puts there decodes or is what an observer answered; and what an observer
answers gets there, whether it decodes or not. -/
theorem Run.outbound {settings : BrokerSettings} {J : List Note} {b : Broker}
    (h : Run settings J b) :
    (∀ out ∈ b.injected.items, ∃ J' b' e, Run settings J' b' ∧ J' ++ [Note.happened e] <+: J ∧
      b'.Enters e out) ∧
    (∀ e out, b.Enters e out → Decodes settings.decodeMode out.bytes ∨ b.Unchecked e out) ∧
    (∀ e out, b.Unchecked e out → b.Enters e out) := by
  refine ⟨h.exists_enters, fun e out henters => ?_, fun e out => Unchecked.enters⟩
  rw [← h.settings_eq]
  cases injected_step b e with
  | inl htaken => exact absurd henters (not_enters_of_sublist htaken)
  | inr hput =>
      obtain ⟨new, hnew, hgood⟩ := hput
      rw [henters.unique hnew]
      exact hgood

/-- An observer has its copy. -/
def observed : Broker :=
  [Event.register "observer" [{ id := 1, kind := .net .genericText, blocking := .sendAndForget }] 4,
    .submit [2, 0, 0, 0, 0] .clientToServer 0].foldl Broker.step (.new {})

theorem run_observed : ∃ J, Run {} J observed := ⟨_, Run.new.foldl _⟩

/-- The observer may answer with bytes of no type, and they get on the path; a packet that an
extension sends of its own gets there too, and decodes. -/
theorem outbound_observed : ∃ J, Run {} J observed ∧
    (let answer : Event := .respond "observer" ⟨1, 1, .forward [9, 0, 0, 0, 0] .unspecified⟩
      let out : Outgoing := ⟨2, [9, 0, 0, 0, 0], .clientToServer, 0, 0⟩
      observed.Unchecked answer out ∧ observed.Enters answer out) ∧
    let push : Event := .inject [2, 0, 0, 0, 0] .serverToClient 0
    let out : Outgoing := ⟨2, [2, 0, 0, 0, 0], .serverToClient, 0, 0⟩
    observed.Enters push out ∧
      (Decodes .relaxed [2, 0, 0, 0, 0] ∨ observed.Unchecked push out) := by
  obtain ⟨J, hrun⟩ := run_observed
  obtain ⟨_, hchecked, henters⟩ := hrun.outbound
  have hanswer : observed.Unchecked
      (.respond "observer" ⟨1, 1, .forward [9, 0, 0, 0, 0] .unspecified⟩)
      ⟨2, [9, 0, 0, 0, 0], .clientToServer, 0, 0⟩ :=
    ⟨_, _, ⟨1, "observer", 1, 1, .clientToServer, 0, 0⟩, .unspecified, rfl, by cbv, by cbv, rfl,
      rfl, rfl, by cbv, by cbv⟩
  have hpush : observed.Enters (.inject [2, 0, 0, 0, 0] .serverToClient 0)
      ⟨2, [2, 0, 0, 0, 0], .serverToClient, 0, 0⟩ := by
    unfold Enters
    cbv
  exact ⟨J, hrun, ⟨hanswer, henters _ _ hanswer⟩, hpush, hchecked _ _ hpush⟩

/-- Not everything on the path decodes. -/
theorem undecodable_outbound : ¬∀ settings J b, Run settings J b →
    ∀ out ∈ b.injected.items, Decodes settings.decodeMode out.bytes := by
  intro h
  obtain ⟨J, hrun⟩ := run_observed
  have hstep := hrun.step (.respond "observer" ⟨1, 1, .forward [9, 0, 0, 0, 0] .unspecified⟩)
  have hitems :
      (observed.step
        (.respond "observer" ⟨1, 1, .forward [9, 0, 0, 0, 0] .unspecified⟩)).injected.items =
      [⟨2, [9, 0, 0, 0, 0], .clientToServer, 0, 0⟩] := by cbv
  have hbad : Packet.decode .relaxed [9, 0, 0, 0, 0] = .error (.unknownType 9) := by cbv
  obtain ⟨p, hp⟩ :=
    h _ _ _ hstep ⟨2, [9, 0, 0, 0, 0], .clientToServer, 0, 0⟩
      (by rw [hitems]; exact List.mem_cons_self)
  rw [hbad] at hp
  cases hp

end Broker

end Intercept
