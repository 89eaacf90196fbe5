import Mathlib
import Intercept.Proofs.Broker.Move

/-!
# Intercept.Proofs.Broker.Changeless

Answers that leave the packet as it is.

```
Chain.Reachable mode c    c has come from a packet that decodes, by candidates and directives
b.Meets J c               c stands in the table, or the journal tells of it
Changeless mode c d d'    d brings nothing that d' does not
```

A packet that does not decode is ignored together with its direction, and the
packet that is there already decodes to what the chain knows
(`Chain.Reachable.decoded`).  So a replacement by either leaves the chain as
it is, and whatever comes next is found as if no packet had been brought.
-/

namespace Intercept

variable {mode : DecodeMode} {c : Chain} {bytes : Bytes} {direction : Direction} {e : CodecError}

/-! ## chains that come to be -/

namespace Chain

/-- The chains that come to be: a packet that decodes starts one, and it goes on by any candidates
and any directives, whoever is registered then. -/
inductive Reachable (mode : DecodeMode) : Chain → Prop where
  | start {bytes : Bytes} {packet : Packet} (id : UInt64) (direction : Direction) (flags : UInt32) :
      Packet.decode mode bytes = .ok packet → Reachable mode { id, bytes, packet, direction, flags }
  | next {c : Chain} (candidates : List Client) : Reachable mode c →
      Reachable mode (c.nextFrom candidates).2
  | advance {c : Chain} (r : Registry) (d : Directive) : Reachable mode c →
      Reachable mode (c.advance r mode d).2

/-- The chain knows what its bytes spell. -/
def Decoded (mode : DecodeMode) (c : Chain) : Prop := Packet.decode mode c.bytes = .ok c.packet

theorem Decoded.nextFrom (h : c.Decoded mode) (candidates : List Client) :
    (c.nextFrom candidates).2.Decoded mode := by
  obtain ⟨client, _, _, hnext⟩ | hnext := nextFrom_cases c candidates
  · rw [hnext]; exact h
  · rw [hnext]; exact h

theorem Decoded.replace (h : c.Decoded mode) (bytes : Bytes) (direction : Direction) :
    (c.replace mode bytes direction).Decoded mode := by
  unfold Chain.replace
  split
  · next hp => exact hp
  · exact h

theorem Decoded.taking (h : c.Decoded mode) (d : Directive) : (c.taking mode d).Decoded mode := by
  have hhit : c.hit.Decoded mode := h
  cases d with
  | forward packet direction => exact hhit.replace packet direction
  | finish packet direction => exact hhit.replace packet direction
  | pass => exact hhit
  | cancel => exact hhit

/-- **A chain knows at all times what its bytes spell.** -/
theorem Reachable.decoded (h : c.Reachable mode) : c.Decoded mode := by
  induction h with
  | start id direction flags hp => exact hp
  | next candidates _ ih => exact ih.nextFrom candidates
  | @advance c r d _ ih =>
      obtain ⟨client, _, _, hnext⟩ | hnext | hnext := advance_cases c r mode d
      · rw [hnext]; exact ih.taking d
      · rw [hnext]; exact ih.taking d
      · rw [hnext]; exact ih.taking d

/-! ## replacements that change nothing -/

theorem replace_of_error (c : Chain) (h : Packet.decode mode bytes = .error e)
    (direction : Direction) : c.replace mode bytes direction = c := by
  rw [replace, h]

/-- To bring what is there already is to bring nothing. -/
theorem Decoded.replace_self (h : c.Decoded mode) : c.replace mode c.bytes .unspecified = c := by
  rw [Chain.replace, show Packet.decode mode c.bytes = .ok c.packet from h]
  rfl

end Chain

/-- The first directive brings nothing: a packet that does not decode, or the one that is there.
The second one is what it amounts to. -/
inductive Changeless (mode : DecodeMode) (c : Chain) : Directive → Directive → Prop where
  | forward {bytes : Bytes} {e : CodecError} (direction : Direction) :
      Packet.decode mode bytes = .error e → Changeless mode c (.forward bytes direction) .pass
  | forwardSame : Changeless mode c (.forward c.bytes .unspecified) .pass
  | finish {bytes : Bytes} {e : CodecError} (direction : Direction) :
      Packet.decode mode bytes = .error e →
      Changeless mode c (.finish bytes direction) (.finish c.bytes .unspecified)

/-- The chain takes the one as it takes the other. -/
theorem Changeless.taking_eq {d d' : Directive} (h : Changeless mode c d d') (hc : c.Decoded mode) :
    c.taking mode d = c.taking mode d' := by
  have hhit : c.hit.Decoded mode := hc
  cases h with
  | forward direction hbytes => exact c.hit.replace_of_error hbytes direction
  | forwardSame => exact hhit.replace_self
  | finish direction hbytes =>
    exact (c.hit.replace_of_error hbytes direction).trans hhit.replace_self.symm

/-- Bringing nothing comes to what it amounts to. -/
theorem Changeless.advance_eq {d d' : Directive} (h : Changeless mode c d d') (hc : c.Decoded mode)
    (r : Registry) : c.advance r mode d = c.advance r mode d' := by
  have htaking := h.taking_eq hc
  cases h with
  | forward direction _ =>
      rw [Chain.advance_of_goesOn c r mode rfl, Chain.advance_of_goesOn c r mode rfl, htaking]
  | forwardSame =>
      rw [Chain.advance_of_goesOn c r mode rfl, Chain.advance_of_goesOn c r mode rfl, htaking]
  | finish direction _ => rw [Chain.advance_finish, Chain.advance_finish, htaking]

/-! ## the chains of a broker -/

namespace Broker

/-- The chain stands in the table, or the journal tells of it. -/
def Meets (J : List Note) (b : Broker) (c : Chain) : Prop :=
  (∃ a ∈ b.chains, a.chain = c) ∨ ∃ n ∈ J, n.chain? = some c

/-- All chains of a moment have come to be: those of the table, those the journal tells of, and the
one that is being carried on. -/
structure Reached (mode : DecodeMode) (m : Moment) : Prop where
  waits : ∀ a ∈ m.broker.chains, a.chain.Reachable mode
  told : ∀ n ∈ m.journal, ∀ c, n.chain? = some c → c.Reachable mode
  flies : ∀ f, m.flight = some f → f.1.chain.Reachable mode

variable {m m' : Moment} {J N : List Note} {b b' : Broker} {settings : BrokerSettings}
  {flight flight' : Option (ActiveChain × Step)}

/-- Notes about chains that have come to be may be added, and such chains may be put in. -/
theorem Reached.note (h : Reached mode ⟨J, b, flight⟩)
    (hchains : ∀ x ∈ b'.chains, (∃ a ∈ b.chains, x.chain = a.chain) ∨ x.chain.Reachable mode)
    (hnotes : ∀ n ∈ N, ∀ c, n.chain? = some c → c.Reachable mode)
    (hflight : ∀ f, flight' = some f → f.1.chain.Reachable mode) :
    Reached mode ⟨J ++ N, b', flight'⟩ := by
  constructor
  · intro x hx
    obtain ⟨a, ha, hxa⟩ | hnew := hchains x hx
    · rw [hxa]; exact h.waits a ha
    · exact hnew
  · intro n hn
    cases List.mem_append.mp hn with
    | inl hold => exact h.told n hold
    | inr hnew => exact hnotes n hnew
  · exact hflight

/-- What is noted of nobody's chain, or not at all, may happen at any time. -/
theorem Reached.silent (h : Reached mode ⟨J, b, flight⟩)
    (hchains : ∀ x ∈ b'.chains, ∃ a ∈ b.chains, x.chain = a.chain)
    (hnotes : ∀ n ∈ N, n.chain? = none) : Reached mode ⟨J ++ N, b', none⟩ := by
  refine h.note (fun x hx => .inl (hchains x hx)) (fun n hn c hc => ?_) (fun f hf => by cases hf)
  rw [hnotes n hn] at hc
  cases hc

theorem Reached.still (h : Reached mode ⟨J, b, flight⟩)
    (hchains : ∀ x ∈ b'.chains, ∃ a ∈ b.chains, x.chain = a.chain) :
    Reached mode ⟨J, b', none⟩ := by
  have hnotes : ∀ n ∈ ([] : List Note), n.chain? = none := fun n hn => by cases hn
  have hsilent := h.silent hchains hnotes
  rwa [List.append_nil] at hsilent

/-- One more note about a chain that has come to be. -/
theorem Reached.concat {n : Note} (h : Reached mode ⟨J, b, flight⟩)
    (hchains : ∀ x ∈ b'.chains, (∃ a ∈ b.chains, x.chain = a.chain) ∨ x.chain.Reachable mode)
    (hnote : n.chain? = some c) (hc : c.Reachable mode)
    (hflight : ∀ f, flight' = some f → f.1.chain.Reachable mode) :
    Reached mode ⟨J ++ [n], b', flight'⟩ := by
  refine h.note hchains (fun n' hn' c' hc' => ?_) hflight
  rw [List.mem_singleton] at hn'
  rw [hn', hnote, Option.some_inj] at hc'
  rw [← hc']
  exact hc

/-- **Every chain of every moment has come to be from a packet that decodes.** -/
theorem Reached.move (hmove : Move m m') (hmode : m.broker.settings.decodeMode = mode)
    (h : Reached mode m) : Reached mode m' := by
  cases hmove with
  | happened e =>
      refine h.silent (fun x hx => ⟨x, hx, rfl⟩) fun n hn => ?_
      rw [List.mem_singleton] at hn
      rw [hn]
      rfl
  | @directed J b a d cause ha _ =>
      have hreach := h.waits a (chain?_eq_some ha).1
      refine h.concat (fun x hx => .inl ⟨x, hx, rfl⟩) rfl hreach ?_
      rintro f ⟨rfl⟩
      rw [← hmode] at hreach ⊢
      exact hreach.advance b.registry d
  | @handed J b a client sent hs =>
      have hreach := h.flies _ rfl
      refine h.concat (fun x hx => ?_) rfl hreach (fun f hf => by cases hf)
      cases mem_chains_setChain hx with
      | inl he => rw [he]; exact .inr hreach
      | inr hold => exact .inl ⟨x, chains_of_trySend hs ▸ hold.1, rfl⟩
  | @missed J b a client hs =>
      have hreach := h.flies _ rfl
      have hhanded : Reached mode ⟨J ++ [.handed a.chain client false], b, none⟩ :=
        h.concat (fun x hx => .inl ⟨x, hx, rfl⟩) rfl hreach (fun f hf => by cases hf)
      refine hhanded.concat (fun x hx => .inl ⟨x, hx, rfl⟩) rfl hreach ?_
      rintro f ⟨rfl⟩
      rw [← hmode] at hreach ⊢
      exact hreach.advance b.registry _
  | finished | cancelled =>
      refine h.concat (fun x hx => ?_) rfl (h.flies _ rfl) (fun f hf => by cases hf)
      rw [chains_conclude, mem_chains_dropChain] at hx
      exact .inl ⟨x, hx.1, rfl⟩
  | joined | replaced | left | refused | taken | forgot => exact h.still fun x hx => ⟨x, hx, rfl⟩
  | copied flags _ _ _ =>
      refine h.silent (fun x hx => ⟨x, ?_, rfl⟩) (chain?_notifyNotes _ _ _ _ _)
      rwa [(told_notify _ _ _ _ _).chains] at hx
  | @started J b bytes packet direction flags c next hp hc hnext =>
      have hstart : c.Reachable mode := by
        rw [hmode] at hp
        rw [hc]
        exact .start b.freshId direction flags hp
      have hreach : next.2.Reachable mode := hnext ▸ hstart.next _
      refine h.concat (fun x hx => ?_) rfl hstart ?_
      · cases List.mem_append.mp hx with
        | inl hold => exact .inl ⟨x, (List.mem_filter.mp hold).1, rfl⟩
        | inr hnew =>
            rw [List.mem_singleton] at hnew
            rw [hnew]
            exact .inr hreach
      · rintro f ⟨rfl⟩
        exact hreach
  | abandoned ha =>
      refine h.still fun x hx => ?_
      cases mem_chains_setChain hx with
      | inl he => exact ⟨_, (chain?_eq_some ha).1, by rw [he]⟩
      | inr hold => exact ⟨x, hold.1, rfl⟩
  | redeemed d _ _ =>
      refine h.silent (fun x hx => ⟨x, ?_, rfl⟩) (chain?_redeemNotes _ _ _)
      rwa [(posted_redeem _ _ _).chains] at hx
  | pushed direction flags _ =>
      refine h.silent (fun x hx => ⟨x, ?_, rfl⟩) (chain?_enqueueNotes _ _ _ _ _)
      rwa [(posted_enqueue _ _ _ _ _).chains] at hx
  | dropped ha _ =>
      have hreach := h.waits _ (chain?_eq_some ha).1
      exact h.concat (fun x hx => .inl ⟨x, (List.mem_filter.mp hx).1, rfl⟩) rfl hreach
        (fun f hf => by cases hf)
  | outside he =>
      refine h.still fun x hx => ⟨x, ?_, rfl⟩
      rwa [chains_outside he] at hx
  | reordered hp => exact h.still fun x hx => ⟨x, hp.subset hx, rfl⟩

theorem Run.reached (h : Run settings J b) : Reached settings.decodeMode ⟨J, b, none⟩ := by
  have hnew : Reached settings.decodeMode ⟨[], .new settings, none⟩ := by
    constructor
    · intro a ha; cases ha
    · intro n hn; cases hn
    · intro f hf; cases hf
  have hboth := h.induct
    (P := fun m => m.broker.settings = settings ∧ Reached settings.decodeMode m)
    ⟨rfl, hnew⟩
    fun m m' hmove hm => ⟨(settings_move hmove).trans hm.1, hm.2.move hmove (by rw [hm.1])⟩
  exact hboth.2

/-- A chain that a run comes across has come to be. -/
theorem Run.reachable_of_meets (h : Run settings J b) (hc : Meets J b c) :
    c.Reachable settings.decodeMode := by
  obtain ⟨a, ha, rfl⟩ | ⟨n, hn, hc⟩ := hc
  · exact h.reached.waits a ha
  · exact h.reached.told n hn c hc

/-- **A directive that brings nothing new is as good as one that brings nothing.**  For every chain
that a run comes across, and for every other that can come to be, the chain and what happens next
are the same, whoever is registered; and so is the broker behind it, if the chain stands in the
table. -/
theorem Run.changeless (h : Run settings J b)
    (hc : Meets J b c ∨ c.Reachable b.settings.decodeMode) {d d' : Directive}
    (hd : Changeless b.settings.decodeMode c d d') :
    (∀ r, c.advance r b.settings.decodeMode d = c.advance r b.settings.decodeMode d') ∧
    ∀ a, b.chain? c.id = some a → a.chain = c → b.apply c.id d = b.apply c.id d' := by
  have hreach : c.Reachable b.settings.decodeMode := by
    obtain hmeets | hreach := hc
    · rw [h.settings_eq]
      exact h.reachable_of_meets hmeets
    · exact hreach
  have hadvance := hd.advance_eq hreach.decoded
  refine ⟨hadvance, fun a ha hac => ?_⟩
  rw [apply, apply, ha]
  simp only [hac, hadvance]

/-- A packet is with the first of two extensions; the second one comes next. -/
def asked : List Event := [
  .register "first" [{ id := 1, kind := .net .genericText }] 4,
  .register "second" [{ id := 1, kind := .net .genericText, priority := -1 }] 4,
  .submit [2, 0, 0, 0, 0] .clientToServer 0]

/-- To forward bytes of no type the other way is to pass the packet on to the second extension. -/
theorem changeless_past_garbage : ∃ J b a, Run {} J b ∧ b.chain? 1 = some a ∧
    Changeless .relaxed a.chain (.forward [9, 0, 0, 0, 0] .serverToClient) .pass ∧
    a.chain.advance b.registry .relaxed (.forward [9, 0, 0, 0, 0] .serverToClient) =
      a.chain.advance b.registry .relaxed .pass ∧
    b.apply 1 (.forward [9, 0, 0, 0, 0] .serverToClient) = b.apply 1 .pass ∧
    ((b.apply 1 .pass).queued 2).length = 1 := by
  have h : Run {} _ (asked.foldl Broker.step (.new {})) := Run.new.foldl asked
  have hmode : (asked.foldl Broker.step (.new {})).settings.decodeMode = .relaxed := by
    rw [h.settings_eq]
  obtain ⟨a, ha⟩ : ∃ a, (asked.foldl Broker.step (.new {})).chain? 1 = some a := ⟨_, by cbv⟩
  obtain ⟨hmem, hid⟩ := chain?_eq_some ha
  have hgarbage : Packet.decode .relaxed [9, 0, 0, 0, 0] = .error (.unknownType 9) := by cbv
  have hd : Changeless .relaxed a.chain (.forward [9, 0, 0, 0, 0] .serverToClient) .pass :=
    .forward .serverToClient hgarbage
  have hsame := h.changeless (.inl (.inl ⟨a, hmem, rfl⟩)) (hmode ▸ hd)
  rw [hmode, hid] at hsame
  exact ⟨_, _, a, h, ha, hd, hsame.1 _, hsame.2 a ha rfl, by cbv⟩

end Broker

end Intercept
