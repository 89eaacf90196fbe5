import Intercept.Broker.Delivery
import Intercept.Proofs.Chain.Advance

/-!
# Intercept.Proofs.Broker.Carry

Carrying chains on: what `drive`, and everything made of it, leaves alone and
what becomes of the table of chains.

* `Carried b b'` — nothing but links, chains, outcomes and counts differ.
* `drive_rule` — the loop rule: what holds of a chain and its next step, and
  is kept by the fallback, holds of what `drive` leaves in the table.
* `chain?_drive_of_ne` — the chains that are not meant stay as they are.
-/

namespace Intercept.Broker

/-! ## what carrying on leaves alone -/

/-- Between these states chains have only been carried on. -/
structure Carried (b b' : Broker) : Prop where
  settings : b'.settings = b.settings
  registry : b'.registry = b.registry
  correlations : b'.correlations = b.correlations
  injected : b'.injected = b.injected
  nextId : b'.nextId = b.nextId
  now : b'.now = b.now

theorem Carried.refl (b : Broker) : Carried b b := ⟨rfl, rfl, rfl, rfl, rfl, rfl⟩

theorem Carried.trans {b b' b'' : Broker} (h : Carried b b') (h' : Carried b' b'') :
    Carried b b'' :=
  ⟨h'.settings.trans h.settings, h'.registry.trans h.registry, h'.correlations.trans h.correlations,
    h'.injected.trans h.injected, h'.nextId.trans h.nextId, h'.now.trans h.now⟩

/-- Queueing a frame changes one link. -/
theorem trySend_eq_some {b sent : Broker} {ext : String} {frame : Frame}
    (h : b.trySend ext frame = some sent) :
    ∃ link queue, b.link? ext = some link ∧ link.queue.push? frame = some queue ∧
      sent = b.mapQueue link.session fun _ => queue := by
  simp only [trySend, Option.bind_eq_bind, Option.bind_eq_some_iff, Option.pure_def,
    Option.some.injEq] at h
  obtain ⟨link, hl, queue, hq, hs⟩ := h
  exact ⟨link, queue, hl, hq, hs.symm⟩

/-- Sending a frame is carrying on. -/
theorem carried_of_trySend {b sent : Broker} {ext : String} {frame : Frame}
    (h : b.trySend ext frame = some sent) : Carried b sent := by
  obtain ⟨link, queue, _, _, rfl⟩ := trySend_eq_some h
  exact ⟨rfl, rfl, rfl, rfl, rfl, rfl⟩

theorem chains_of_trySend {b sent : Broker} {ext : String} {frame : Frame}
    (h : b.trySend ext frame = some sent) : sent.chains = b.chains := by
  obtain ⟨link, queue, _, _, rfl⟩ := trySend_eq_some h
  rfl

theorem carried_conclude (b : Broker) (a : ActiveChain) (o : Outcome) :
    Carried b (b.conclude a o) := by
  unfold conclude
  split
  · exact ⟨rfl, rfl, rfl, rfl, rfl, rfl⟩
  · exact ⟨rfl, rfl, rfl, rfl, rfl, rfl⟩

@[simp] theorem chains_conclude (b : Broker) (a : ActiveChain) (o : Outcome) :
    (b.conclude a o).chains = (b.dropChain a.chain.id).chains := by
  unfold conclude
  split
  · rfl
  · rfl

theorem carried_drive (b : Broker) (a : ActiveChain) (step : Step) :
    Carried b (b.drive a step) := by
  induction b, a, step using drive.induct with
  | case1 b a => rw [drive]; exact carried_conclude b a _
  | case2 b a => rw [drive]; exact carried_conclude b a _
  | case3 b a client sent hs =>
      rw [drive, hs]
      have h := carried_of_trySend hs
      exact ⟨h.settings, h.registry, h.correlations, h.injected, h.nextId, h.now⟩
  | case4 b a client hs next ih =>
      rw [drive, hs]
      exact ⟨ih.settings, ih.registry, ih.correlations, ih.injected, ih.nextId, ih.now⟩

/-- A directive does no more than carry its chain on. -/
theorem carried_apply (b : Broker) (id : UInt64) (d : Directive) : Carried b (b.apply id d) := by
  unfold apply
  split
  · exact carried_drive b _ _
  · exact Carried.refl b

theorem carried_expire (b : Broker) (id : UInt64) : Carried b (b.expire id) := by
  unfold expire
  split
  · split
    · have h := carried_apply (b.count .hopTimeouts []) id b.settings.onTimeout.directive
      exact ⟨h.settings, h.registry, h.correlations, h.injected, h.nextId, h.now⟩
    · exact Carried.refl b
  · exact Carried.refl b

theorem carried_giveUp (b : Broker) (id : UInt64) : Carried b (b.giveUp id) := by
  have h := carried_apply (b.count .disconnectFallbacks []) id b.settings.onDisconnect.directive
  exact ⟨h.settings, h.registry, h.correlations, h.injected, h.nextId, h.now⟩

/-- One after another, too. -/
theorem carried_foldl {f : Broker → UInt64 → Broker} (hf : ∀ b id, Carried b (f b id))
    (ids : List UInt64) (b : Broker) : Carried b (ids.foldl f b) := by
  induction ids generalizing b with
  | nil => exact Carried.refl b
  | cons id ids ih => exact (hf b id).trans (ih (f b id))

theorem carried_abandon (b : Broker) (id : UInt64) : Carried b (b.abandon id) := by
  unfold abandon
  split
  · exact ⟨rfl, rfl, rfl, rfl, rfl, rfl⟩
  · exact ⟨rfl, rfl, rfl, rfl, rfl, rfl⟩

/-- Releasing a session forgets what its observers were to answer, and carries its chains on. -/
theorem carried_release (b : Broker) (ext : String) (session : Nat) :
    Carried (b.forgetSession ext session) (b.release ext session) :=
  carried_foldl carried_giveUp _ _

theorem carried_dropAbandoned (b : Broker) (id : UInt64) : Carried b (b.dropAbandoned id) :=
  ⟨rfl, rfl, rfl, rfl, rfl, rfl⟩

/-- Housekeeping forgets old copies and carries on. -/
theorem carried_prune (b : Broker) : Carried b.forgetOld b.prune :=
  carried_foldl carried_dropAbandoned _ _

/-- A sweep does the same. -/
theorem carried_sweep (b : Broker) : Carried b.forgetOld b.sweep.2 :=
  (carried_prune b).trans (carried_foldl carried_expire _ _)

/-! ## what becomes of the table -/

/-- A chain that is found is in the table, under its id. -/
theorem chain?_eq_some {b : Broker} {id : UInt64} {a : ActiveChain} (h : b.chain? id = some a) :
    a ∈ b.chains ∧ a.chain.id = id := by
  refine ⟨List.mem_of_find?_eq_some h, ?_⟩
  have := List.find?_some h
  simpa using this

/-- A chain that is not found has no entry. -/
theorem chain?_eq_none {b : Broker} {id : UInt64} (h : b.chain? id = none) :
    ∀ x ∈ b.chains, x.chain.id ≠ id := by
  intro x hx
  have := List.find?_eq_none.mp h x hx
  simpa using this

/-- Dropping a chain takes its entries out of the table, and no others. -/
theorem mem_chains_dropChain (b : Broker) (id : UInt64) (x : ActiveChain) :
    x ∈ (b.dropChain id).chains ↔ x ∈ b.chains ∧ x.chain.id ≠ id := by
  simp [dropChain]

/-- A new entry is put in place of the old one of its chain. -/
theorem mem_chains_setChain {b : Broker} {a x : ActiveChain} (h : x ∈ (b.setChain a).chains) :
    x = a ∨ (x ∈ b.chains ∧ x.chain.id ≠ a.chain.id) := by
  simp only [setChain, List.mem_map] at h
  obtain ⟨y, hy, hx⟩ := h
  by_cases hid : y.chain.id = a.chain.id
  · rw [if_pos hid] at hx
    exact .inl hx.symm
  · rw [if_neg hid] at hx
    subst hx
    exact .inr ⟨hy, hid⟩

/-- **The loop rule.**  What holds of a chain and its next step, and is kept when the fallback takes
the place of an answer, holds of the chain that ends up in the table and of its dispatch. -/
theorem drive_rule {P : ActiveChain → Step → Prop} {b : Broker} {a : ActiveChain} {step : Step}
    (hfall : ∀ a client, P a (.dispatch client) →
      let next := a.chain.advance b.registry b.settings.decodeMode b.settings.onDisconnect.directive
      P { a with chain := next.2 } next.1)
    (h : P a step) :
    (∃ c client, P c (.dispatch client) ∧ c.chain.id = a.chain.id ∧
        (b.drive a step).chains = (b.setChain { c with hopStarted := b.now }).chains) ∨
      (b.drive a step).chains = (b.dropChain a.chain.id).chains := by
  induction b, a, step using drive.induct with
  | case1 b a => rw [drive]; exact .inr (chains_conclude b a _)
  | case2 b a => rw [drive]; exact .inr (chains_conclude b a _)
  | case3 b a client sent hs =>
      rw [drive, hs]
      refine .inl ⟨a, client, h, rfl, ?_⟩
      simp only [setChain, chains_of_trySend hs]
  | case4 b a client hs next ih =>
      rw [drive, hs]
      have hid : next.2.id = a.chain.id := Chain.advance_id _ _ _ _
      have ih := ih hfall (hfall a client h)
      rw [hid] at ih
      exact ih

/-! ## the chains that are not meant -/

theorem chain?_setChain_of_ne {b : Broker} {a : ActiveChain} {id : UInt64} (h : id ≠ a.chain.id) :
    (b.setChain a).chain? id = b.chain? id := by
  simp only [chain?, setChain, List.find?_map]
  induction b.chains with
  | nil => rfl
  | cons x xs ih =>
      by_cases hx : x.chain.id = id
      · simp [hx, h]
      · by_cases ha : x.chain.id = a.chain.id
        · simpa [ha, h, Ne.symm h] using ih
        · simpa [ha, hx] using ih

theorem chain?_dropChain_of_ne {b : Broker} {i id : UInt64} (h : id ≠ i) :
    (b.dropChain i).chain? id = b.chain? id := by
  simp only [chain?, dropChain, List.find?_filter]
  congr 1
  funext x
  by_cases hx : x.chain.id = id
  · simp [hx, h]
  · simp [hx]

theorem chain?_drive_of_ne {b : Broker} {a : ActiveChain} {step : Step} {id : UInt64}
    (h : id ≠ a.chain.id) : (b.drive a step).chain? id = b.chain? id := by
  cases drive_rule (P := fun _ _ => True) (fun _ _ _ => trivial) (trivial : True) with
  | inl hset =>
      obtain ⟨c, client, _, hid, hchains⟩ := hset
      rw [chain?, hchains]
      exact chain?_setChain_of_ne (by rwa [hid])
  | inr hdrop =>
      rw [chain?, hdrop]
      exact chain?_dropChain_of_ne h

/-- A directive for one chain leaves the others as they are. -/
theorem chain?_apply_of_ne {b : Broker} {i id : UInt64} {d : Directive} (h : id ≠ i) :
    (b.apply i d).chain? id = b.chain? id := by
  unfold apply
  split
  · next a ha =>
      obtain ⟨_, rfl⟩ := chain?_eq_some ha
      rw [chain?_drive_of_ne]
      rwa [Chain.advance_id]
  · rfl

/-! ## nobody waits in vain -/

/-- A kept outcome is found. -/
theorem isSome_lookup_keepOutcome (b : Broker) (id : UInt64) (o : Outcome) :
    ((b.keepOutcome id o).outcomes.lookup id).isSome := by
  rw [keepOutcome, List.lookup_append]
  simp

theorem isSome_chain?_setChain {b : Broker} {a : ActiveChain} (h : (b.chain? a.chain.id).isSome) :
    ((b.setChain a).chain? a.chain.id).isSome := by
  obtain ⟨x, hx⟩ := Option.isSome_iff_exists.mp h
  obtain ⟨hmem, hid⟩ := chain?_eq_some hx
  rw [chain?, List.find?_isSome]
  refine ⟨a, ?_, by simp⟩
  simp only [setChain, List.mem_map]
  exact ⟨x, hmem, by rw [if_pos hid]⟩

/-- The chain is in the table or has an outcome. -/
def Answers (b : Broker) (id : UInt64) : Prop :=
  (b.chain? id).isSome ∨ (b.outcomes.lookup id).isSome

/-- Carrying a chain on loses no outcome that is awaited. -/
theorem answers_drive {b : Broker} {a : ActiveChain} (step : Step) (hawaited : a.awaited = true)
    (hin : (b.chain? a.chain.id).isSome) : (b.drive a step).Answers a.chain.id := by
  induction b, a, step using drive.induct with
  | case1 b a =>
      rw [drive, conclude, if_pos hawaited]
      exact .inr (isSome_lookup_keepOutcome _ _ _)
  | case2 b a =>
      rw [drive, conclude, if_pos hawaited]
      exact .inr (isSome_lookup_keepOutcome _ _ _)
  | case3 b a client sent hs =>
      rw [drive, hs]
      have hsent : (sent.chain? a.chain.id).isSome := by
        rw [chain?, chains_of_trySend hs]
        exact hin
      exact .inl (isSome_chain?_setChain (a := { a with hopStarted := b.now }) hsent)
  | case4 b a client hs next ih =>
      have hid : next.2.id = a.chain.id := Chain.advance_id _ _ _ _
      rw [drive, hs]
      rw [hid] at ih
      exact ih hawaited hin

/-- A directive for a chain that somebody awaits leaves it in the table or with an outcome. -/
theorem answers_apply {b : Broker} {a : ActiveChain} (d : Directive) (hawaited : a.awaited = true)
    (ha : b.chain? a.chain.id = some a) : (b.apply a.chain.id d).Answers a.chain.id := by
  let next := a.chain.advance b.registry b.settings.decodeMode d
  have hid : next.2.id = a.chain.id := Chain.advance_id _ _ _ _
  have hdrive := answers_drive (b := b) (a := { a with chain := next.2 }) next.1 hawaited
  unfold apply
  rw [ha]
  dsimp only at hdrive ⊢
  rw [hid, ha] at hdrive
  exact hdrive rfl

theorem answers_expire {b : Broker} {a : ActiveChain} (hawaited : a.awaited = true)
    (ha : b.chain? a.chain.id = some a) : (b.expire a.chain.id).Answers a.chain.id := by
  have hcounted : (b.count .hopTimeouts []).chain? a.chain.id = some a := ha
  unfold expire
  rw [ha]
  dsimp only
  split
  · exact answers_apply _ hawaited hcounted
  · exact .inl (by rw [ha]; rfl)

/-! ## packets outside the chains -/

/-- Between these states observers have only got their copies. -/
structure Told (b b' : Broker) : Prop where
  settings : b'.settings = b.settings
  registry : b'.registry = b.registry
  chains : b'.chains = b.chains
  outcomes : b'.outcomes = b.outcomes
  injected : b'.injected = b.injected
  now : b'.now = b.now

theorem Told.refl (b : Broker) : Told b b := ⟨rfl, rfl, rfl, rfl, rfl, rfl⟩

theorem Told.trans {b b' b'' : Broker} (h : Told b b') (h' : Told b' b'') : Told b b'' :=
  ⟨h'.settings.trans h.settings, h'.registry.trans h.registry, h'.chains.trans h.chains,
    h'.outcomes.trans h.outcomes, h'.injected.trans h.injected, h'.now.trans h.now⟩

/-- A copy for an observer changes nothing but queues, correlations and counts. -/
theorem told_notify (b : Broker) (bytes : Bytes) (direction : Direction) (flags : UInt32)
    (client : Client) : Told b (b.notify bytes direction flags client) := by
  unfold notify
  cases hs : b.drawn.trySend client.ext (b.copyFrame bytes direction flags client) with
  | none => exact ⟨rfl, rfl, rfl, rfl, rfl, rfl⟩
  | some sent =>
      obtain ⟨link, queue, _, _, rfl⟩ := trySend_eq_some hs
      exact ⟨rfl, rfl, rfl, rfl, rfl, rfl⟩

theorem told_foldl (b : Broker) (bytes : Bytes) (direction : Direction) (flags : UInt32)
    (clients : List Client) :
    Told b (clients.foldl (fun b c => b.notify bytes direction flags c) b) := by
  induction clients generalizing b with
  | nil => exact Told.refl b
  | cons c cs ih => exact (told_notify b bytes direction flags c).trans (ih _)

/-- Between these states packets have been put on the outbound path, or refused, and answers of
observers taken. -/
structure Posted (b b' : Broker) : Prop where
  settings : b'.settings = b.settings
  registry : b'.registry = b.registry
  links : b'.links = b.links
  chains : b'.chains = b.chains
  outcomes : b'.outcomes = b.outcomes
  now : b'.now = b.now

/-- A packet for the outbound path leaves chains and sessions alone. -/
theorem posted_enqueue (b : Broker) (bytes : Bytes) (direction : Direction) (flags : UInt32)
    (source : String) : Posted b (b.enqueue bytes direction flags source).2 := by
  unfold enqueue
  split
  · exact ⟨rfl, rfl, rfl, rfl, rfl, rfl⟩
  · exact ⟨rfl, rfl, rfl, rfl, rfl, rfl⟩

/-- What becomes of an observer's answer that brings a packet, and of one that does not. -/
theorem redeem_eq (b : Broker) (c : Correlation) (d : Directive) :
    b.redeem c d =
      match d.packet? with
      | some (packet, direction) =>
        ((b.dropCorrelation c.packetId).count .directives [("op", d.name)]).enqueue packet
          (direction.orElse c.direction) c.flags "fire_and_forget"
      | none => (.ok (), (b.dropCorrelation c.packetId).count .directives [("op", d.name)]) := by
  cases d with
  | forward packet direction => rfl
  | finish packet direction => rfl
  | pass => rfl
  | cancel => rfl

/-- A copy that is found was sent under that id. -/
theorem correlation?_eq_some {b : Broker} {id : UInt64} {c : Correlation}
    (h : b.correlation? id = some c) : c.packetId = id := by
  have := List.find?_some h
  simpa using this

/-- An answer of an observer leaves chains and sessions alone. -/
theorem posted_redeem (b : Broker) (c : Correlation) (d : Directive) :
    Posted b (b.redeem c d).2 := by
  rw [redeem_eq]
  split
  · have h := posted_enqueue ((b.dropCorrelation c.packetId).count .directives [("op", d.name)])
    exact ⟨(h _ _ _ _).settings, (h _ _ _ _).registry, (h _ _ _ _).links, (h _ _ _ _).chains,
      (h _ _ _ _).outcomes, (h _ _ _ _).now⟩
  · exact ⟨rfl, rfl, rfl, rfl, rfl, rfl⟩

end Intercept.Broker
