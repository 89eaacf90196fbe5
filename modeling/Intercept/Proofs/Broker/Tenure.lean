import Mathlib
import Intercept.Proofs.Broker.Operation
import Intercept.Proofs.Registry.Service

/-!
# Intercept.Proofs.Broker.Tenure

Nobody waits for a session that is gone.

```
c.Held r      the chain is at a blocking client that r serves, and remembers it
b.Tended      the registry is sound, every chain is held, every copy's session is current
```

A change of the registry breaks `Tended` for what the old session had; that is
exactly what `release` goes over.  So each operation is judged by which chains
of its table are not held *yet*: after `drive` and `apply` all but the others,
after `release` all but those of the released session (`mem_chains_release`).
-/

namespace Intercept

/-! ## chains that are held -/

namespace Chain

/-- The chain waits for a blocking client of a current session, and remembers it. -/
def Held (r : Registry) (c : Chain) : Prop :=
  ∃ h, c.holder = some h ∧ h.interest.isBlocking = true ∧ r.Serves h ∧ h.key ∈ c.visited

/-- If the chain goes to a client next, it is held by that client. -/
def GoesTo (r : Registry) (c : Chain) (step : Step) : Prop :=
  ∀ client, step = .dispatch client →
    c.holder = some client ∧ client.interest.isBlocking = true ∧ r.Serves client ∧
      client.key ∈ c.visited

/-- A chain that visits a client that it may ask goes to that client. -/
theorem goesTo_visit {r : Registry} {c : Chain} {client : Client} (hs : r.Serves client)
    (hask : c.mayAsk client = true) : (c.visit client).GoesTo r (.dispatch client) := by
  intro d hd
  cases hd
  exact ⟨rfl, ((mayAsk_iff c client).mp hask).1, hs, by simp [visit]⟩

/-- A chain goes to the first candidate that it may ask, or to nobody. -/
theorem goesTo_nextFrom {r : Registry} (c : Chain) {candidates : List Client}
    (hc : ∀ client ∈ candidates, r.Serves client) :
    (c.nextFrom candidates).2.GoesTo r (c.nextFrom candidates).1 := by
  obtain ⟨client, hm, hask, h⟩ | h := nextFrom_cases c candidates
  · rw [h]; exact goesTo_visit (hc client hm) hask
  · rw [h]; intro d hd; cases hd

/-- Behind a directive a chain goes to a client of the registry, or to nobody. -/
theorem goesTo_advance {r : Registry} (hr : r.Sound) (c : Chain) (mode : DecodeMode)
    (d : Directive) : (c.advance r mode d).2.GoesTo r (c.advance r mode d).1 := by
  obtain ⟨client, hm, hask, h⟩ | h | h := advance_cases c r mode d
  · rw [h]; exact goesTo_visit (hr.serves_of_mem_matching hm) hask
  · rw [h]; intro d hd; cases hd
  · rw [h]; intro d hd; cases hd

end Chain

namespace Broker

/-! ## what the operations leave in the table -/

/-- What `drive` leaves in the table is held, but for the other chains. -/
theorem mem_chains_drive {b : Broker} (hr : b.registry.Sound) {a x : ActiveChain} {step : Step}
    (ha : a.chain.GoesTo b.registry step) (hx : x ∈ (b.drive a step).chains) :
    x.chain.Held b.registry ∨ (x ∈ b.chains ∧ x.chain.id ≠ a.chain.id) := by
  have hrule := drive_rule (P := fun a step => a.chain.GoesTo b.registry step) (b := b)
    (fun a _ _ => Chain.goesTo_advance hr a.chain _ _) ha
  obtain ⟨c, client, hc, hid, hset⟩ | hdrop := hrule
  · rw [hset] at hx
    cases mem_chains_setChain hx with
    | inl he => subst he; exact .inl ⟨client, hc client rfl⟩
    | inr hold => rw [← hid]; exact .inr hold
  · rw [hdrop] at hx
    exact .inr ((mem_chains_dropChain b _ x).mp hx)

/-- Applying a directive settles the chain that it is meant for. -/
theorem mem_chains_apply {b : Broker} (hr : b.registry.Sound) {id : UInt64} {d : Directive}
    {x : ActiveChain} (hx : x ∈ (b.apply id d).chains) :
    x.chain.Held b.registry ∨ (x ∈ b.chains ∧ x.chain.id ≠ id) := by
  unfold apply at hx
  cases hc : b.chain? id with
  | none =>
      rw [hc] at hx
      exact .inr ⟨hx, chain?_eq_none hc x hx⟩
  | some a =>
      rw [hc] at hx
      have h := mem_chains_drive hr (Chain.goesTo_advance hr a.chain _ d) hx
      simp only [Chain.advance_id, (chain?_eq_some hc).2] at h
      exact h

/-- The judgement of a hop leaves its chain held, or everything as it is. -/
theorem mem_chains_expire {b : Broker} (hr : b.registry.Sound) {id : UInt64} {x : ActiveChain}
    (hx : x ∈ (b.expire id).chains) : x.chain.Held b.registry ∨ x ∈ b.chains := by
  cases b.judged id with
  | timely _ hstate =>
      rw [hstate] at hx
      exact .inr hx
  | late _ _ hstate =>
      rw [hstate] at hx
      have h := mem_chains_apply (b := b.count .hopTimeouts []) hr hx
      exact h.imp_right And.left

/-- Giving up some chains settles all of them. -/
theorem mem_chains_foldl_giveUp {b : Broker} (hr : b.registry.Sound) {ids : List UInt64}
    {x : ActiveChain} (hx : x ∈ (ids.foldl giveUp b).chains) :
    x.chain.Held b.registry ∨ (x ∈ b.chains ∧ x.chain.id ∉ ids) := by
  induction ids generalizing b with
  | nil => exact .inr ⟨hx, List.not_mem_nil⟩
  | cons id ids ih =>
      have hreg : (b.giveUp id).registry = b.registry := (carried_giveUp b id).registry
      have h := ih (b := b.giveUp id) (by rw [hreg]; exact hr) hx
      rw [hreg] at h
      obtain hheld | ⟨hold, hout⟩ := h
      · exact .inl hheld
      · obtain hheld | ⟨hold, hne⟩ :=
          mem_chains_apply (b := b.count .disconnectFallbacks []) hr hold
        · exact .inl hheld
        · refine .inr ⟨hold, ?_⟩
          rw [List.mem_cons, not_or]
          exact ⟨hne, hout⟩

/-- **Releasing a session settles every chain that it held.** -/
theorem mem_chains_release {b : Broker} (hr : b.registry.Sound) {ext : String} {session : Nat}
    {x : ActiveChain} (hx : x ∈ (b.release ext session).chains) :
    x.chain.Held b.registry ∨ (x ∈ b.chains ∧ x.chain.isHeldBy ext session = false) := by
  obtain hheld | ⟨hold, hout⟩ := mem_chains_foldl_giveUp (b := b.forgetSession ext session) hr hx
  · exact .inl hheld
  · refine .inr ⟨hold, Bool.eq_false_iff.mpr fun hby => hout ?_⟩
    exact List.mem_map_of_mem (List.mem_filter.mpr ⟨hold, hby⟩)

/-! ## the invariant -/

/-- The registry is sound, every chain is held, and every copy is owed by a current session. -/
structure Tended (b : Broker) : Prop where
  sound : b.registry.Sound
  held : ∀ a ∈ b.chains, a.chain.Held b.registry
  owed : ∀ c ∈ b.correlations, b.registry.isCurrent c.ext c.session = true

/-- The holder of a chain is served. -/
theorem Tended.serves {b : Broker} (hb : b.Tended) {id : UInt64} {a : ActiveChain} {holder : Client}
    (ha : b.chain? id = some a) (hh : a.chain.holder = some holder) :
    b.registry.Serves holder := by
  obtain ⟨holder', hh', _, hserves, _⟩ := hb.held a (chain?_eq_some ha).1
  rw [hh] at hh'
  cases hh'
  exact hserves

/-- While the registry stays, only chains and copies that are new need a look. -/
theorem Tended.grown {b b' : Broker} (hb : b.Tended) (hreg : b'.registry = b.registry)
    (hchains : ∀ x ∈ b'.chains, x.chain.Held b.registry ∨ ∃ y ∈ b.chains, y.chain = x.chain)
    (hcopies : ∀ c ∈ b'.correlations,
      b.registry.isCurrent c.ext c.session = true ∨ c ∈ b.correlations) :
    b'.Tended := by
  constructor
  · rw [hreg]; exact hb.sound
  · intro x hx
    rw [hreg]
    obtain h | ⟨y, hy, he⟩ := hchains x hx
    · exact h
    · rw [← he]; exact hb.held y hy
  · intro c hc
    rw [hreg]
    exact (hcopies c hc).elim id (hb.owed c)

/-- Dropping chains and copies does no harm. -/
theorem Tended.shrunk {b b' : Broker} (hb : b.Tended) (hreg : b'.registry = b.registry)
    (hchains : b'.chains ⊆ b.chains) (hcopies : b'.correlations ⊆ b.correlations) : b'.Tended :=
  hb.grown hreg (fun x hx => .inr ⟨x, hchains hx, rfl⟩) fun _ hc => .inr (hcopies hc)

/-- Nobody is left waiting while registry, chains and copies are the same. -/
theorem Tended.same {b b' : Broker} (hb : b.Tended) (hreg : b'.registry = b.registry)
    (hchains : b'.chains = b.chains) (hcopies : b'.correlations = b.correlations) : b'.Tended := by
  refine hb.shrunk hreg ?_ ?_
  · rw [hchains]; exact List.Subset.refl _
  · rw [hcopies]; exact List.Subset.refl _

/-- Carrying chains on does no harm as long as only chains that are held or old are left. -/
theorem Tended.carried {b b' : Broker} (hb : b.Tended) (hc : Carried b b')
    (hchains : ∀ x ∈ b'.chains, x.chain.Held b.registry ∨ x ∈ b.chains) : b'.Tended := by
  refine hb.grown hc.registry (fun x hx => ?_) fun c hm => ?_
  · exact (hchains x hx).imp_right fun h => ⟨x, h, rfl⟩
  · rw [hc.correlations] at hm
    exact .inr hm

/-- A directive leaves its chain with a client that is there. -/
theorem Tended.apply {b : Broker} (hb : b.Tended) (id : UInt64) (d : Directive) :
    (b.apply id d).Tended :=
  hb.carried (carried_apply b id d) fun _ hx => (mem_chains_apply hb.sound hx).imp_right And.left

theorem Tended.expire {b : Broker} (hb : b.Tended) (id : UInt64) : (b.expire id).Tended :=
  hb.carried (carried_expire b id) fun _ hx => mem_chains_expire hb.sound hx

theorem Tended.foldl_expire {b : Broker} (hb : b.Tended) (ids : List UInt64) :
    (ids.foldl Broker.expire b).Tended := by
  induction ids generalizing b with
  | nil => exact hb
  | cons id ids ih => exact ih (hb.expire id)

/-! ## extensions come and go -/

/-- After a change of the registry that concerns one name only, releasing the session that it had
makes everything right again. -/
theorem Tended.release {b b' : Broker} (hb : b.Tended) {ext : String} {old : Registration}
    (hold : b.registry.get? ext = some old) (hsound : b'.registry.Sound)
    (hget : ∀ name, name ≠ ext → b'.registry.get? name = b.registry.get? name)
    (hchains : b'.chains = b.chains) (hcopies : b'.correlations = b.correlations) :
    (b'.release ext old.session).Tended := by
  have hc := carried_release b' ext old.session
  have hreg : (b'.release ext old.session).registry = b'.registry := hc.registry
  constructor
  · rw [hreg]; exact hsound
  · intro x hx
    rw [hreg]
    obtain hheld | ⟨hx, hby⟩ := mem_chains_release hsound hx
    · exact hheld
    · rw [hchains] at hx
      obtain ⟨h, hh, hblock, hserves, hvisited⟩ := hb.held x hx
      -- a holder of that name would be the released session
      have hne : h.ext ≠ ext := by
        rintro rfl
        simp [Chain.isHeldBy, hh, hserves.session_eq hold] at hby
      exact ⟨h, hh, hblock, hserves.of_get? (hget _ hne), hvisited⟩
  · intro c hm
    rw [hreg]
    rw [hc.correlations] at hm
    simp only [forgetSession, hcopies, List.mem_filter, decide_eq_true_eq] at hm
    obtain ⟨g, hg, hs⟩ := (Registry.isCurrent_iff _ _ _).mp (hb.owed c hm.1)
    have hne : c.ext ≠ ext := by
      intro hext
      rw [hext, hold] at hg
      cases hg
      exact hm.2 ⟨hext, hs.symm⟩
    exact (Registry.isCurrent_iff _ _ _).mpr ⟨g, by rw [hget _ hne, hg], hs⟩

/-- A registration gives up what the old session held before anybody can see it. -/
theorem Tended.register {b : Broker} (hb : b.Tended) (ext : String) (is : List Interest)
    (capacity : Nat) : (b.register ext is capacity).Tended := by
  have hsound : (b.registry.register ext is).Sound := hb.sound.register ext is
  have hget := fun name (h : name ≠ ext) => Registry.get?_register_of_ne b.registry is h
  unfold Broker.register
  cases hold : b.registry.get? ext with
  | some old => exact hb.release hold hsound hget rfl rfl
  | none =>
      -- nobody of that name was there to hold a chain or to owe an answer
      constructor
      · exact hsound
      · intro x hx
        obtain ⟨h, hh, hblock, hserves, hvisited⟩ := hb.held x hx
        have hne : h.ext ≠ ext := by
          rintro rfl
          rw [Registry.Serves, hold] at hserves
          obtain ⟨g, hg, _⟩ := hserves
          cases hg
        exact ⟨h, hh, hblock, hserves.of_get? (hget _ hne), hvisited⟩
      · intro c hm
        obtain ⟨g, hg, hs⟩ := (Registry.isCurrent_iff _ _ _).mp (hb.owed c hm)
        have hne : c.ext ≠ ext := by
          intro hext
          rw [hext, hold] at hg
          cases hg
        refine (Registry.isCurrent_iff _ _ _).mpr ⟨g, ?_, hs⟩
        rw [← hg]
        exact hget _ hne

/-- An extension leaves no chain behind, and no copy. -/
theorem Tended.unregister {b : Broker} (hb : b.Tended) (ext : String) :
    (b.unregister ext).Tended := by
  unfold Broker.unregister Registry.unregister?
  cases hold : b.registry.get? ext with
  | none => exact hb
  | some old =>
      have hext : old.ext = ext := Registry.ext_of_get? hold
      have hget := fun name (h : name ≠ ext) => Registry.get?_remove_of_ne b.registry h
      simp only [Option.map_some, removed, hext]
      exact hb.release hold (hb.sound.remove ext) hget rfl rfl

theorem Tended.unregisterSession {b : Broker} (hb : b.Tended) (ext : String) (session : Nat) :
    (b.unregisterSession ext session).Tended := by
  unfold Broker.unregisterSession Registry.unregisterSession?
  split
  · exact hb.unregister ext
  · exact hb

/-! ## packets -/

/-- A copy is owed by the session that it is sent to. -/
theorem Tended.notify {b : Broker} (hb : b.Tended) (bytes : Bytes) (direction : Direction)
    (flags : UInt32) {client : Client} (hs : b.registry.Serves client) :
    (b.notify bytes direction flags client).Tended := by
  have htold := told_notify b bytes direction flags client
  refine hb.grown htold.registry (fun x hx => ?_) fun c hc => ?_
  · rw [htold.chains] at hx
    exact .inr ⟨x, hx, rfl⟩
  · unfold Broker.notify at hc
    split at hc
    · next sent h =>
        have hcopies : sent.correlations = b.correlations := (carried_of_trySend h).correlations
        simp only [count, addCorrelation, hcopies, List.mem_append, List.mem_filter,
          List.mem_singleton] at hc
        obtain hc | rfl := hc
        · exact .inr hc.1
        · exact .inl hs.isCurrent
    · exact .inr hc

theorem Tended.foldl_notify {b : Broker} (hb : b.Tended) (bytes : Bytes) (direction : Direction)
    (flags : UInt32) {clients : List Client} (hs : ∀ c ∈ clients, b.registry.Serves c) :
    (clients.foldl (fun b c => b.notify bytes direction flags c) b).Tended := by
  induction clients generalizing b with
  | nil => exact hb
  | cons c cs ih =>
      refine ih (hb.notify bytes direction flags (hs c List.mem_cons_self)) fun d hd => ?_
      rw [(told_notify b bytes direction flags c).registry]
      exact hs d (List.mem_cons_of_mem c hd)

/-- A new chain goes to a client of the registry. -/
theorem Tended.startChain {b : Broker} (hb : b.Tended) (bytes : Bytes) (packet : Packet)
    (direction : Direction) (flags : UInt32) {candidates : List Client}
    (hs : ∀ c ∈ candidates, b.registry.Serves c) :
    (b.startChain bytes packet direction flags candidates).Tended := by
  have hgoes := Chain.goesTo_nextFrom { id := b.freshId, bytes, packet, direction, flags } hs
  unfold Broker.startChain
  refine hb.grown (carried_drive _ _ _).registry (fun x hx => ?_) fun c hc => ?_
  · obtain hheld | ⟨hold, hne⟩ := mem_chains_drive (by exact hb.sound) (by exact hgoes) hx
    · exact .inl hheld
    · simp only [count, addChain, List.mem_append, List.mem_filter, List.mem_singleton] at hold
      obtain hold | rfl := hold
      · exact .inr ⟨x, hold.1, rfl⟩
      · exact absurd rfl hne
  · rw [(carried_drive _ _ _).correlations] at hc
    exact .inr hc

/-- A packet is shown to clients of the registry only. -/
theorem Tended.submit {b : Broker} (hb : b.Tended) (bytes : Bytes) (direction : Direction)
    (flags : UInt32) : (b.submit bytes direction flags).2.Tended := by
  have hcopied : ∀ packet, (b.copied bytes packet direction flags).Tended := fun packet =>
    hb.foldl_notify bytes direction flags fun c hc =>
      hb.sound.serves_of_mem_matching (mem_observersOf hc).1
  cases b.received bytes direction flags with
  | refused _ hresult => rw [hresult]; exact hb.same rfl rfl rfl
  | passes _ _ hresult => rw [hresult]; exact hcopied _
  | starts _ _ hresult =>
      rw [hresult]
      refine (hcopied _).startChain bytes _ direction flags fun c hc => ?_
      rw [(told_copied ..).registry]
      exact hb.sound.serves_of_mem_matching (mem_candidates hc).1

theorem Tended.poll {b : Broker} (hb : b.Tended) (id : UInt64) : (b.poll id).2.Tended := by
  have hjudged := hb.expire id
  cases snd_poll b id with
  | inl h => rw [h]; exact hjudged
  | inr h => rw [h]; exact hjudged.same rfl rfl rfl

/-- A chain is held whether or not anybody awaits it. -/
theorem Tended.abandon {b : Broker} (hb : b.Tended) (id : UInt64) : (b.abandon id).Tended := by
  unfold Broker.abandon
  cases hc : b.chain? id with
  | none => exact hb.same rfl rfl rfl
  | some a =>
      refine hb.grown rfl (fun x hx => .inr ?_) fun _ h => .inr h
      cases mem_chains_setChain hx with
      | inl he => subst he; exact ⟨a, (chain?_eq_some hc).1, rfl⟩
      | inr hold => exact ⟨x, hold.1, rfl⟩

/-! ## answers -/

/-- The outbound path has nothing to do with who is there. -/
theorem Tended.enqueue {b : Broker} (hb : b.Tended) (bytes : Bytes) (direction : Direction)
    (flags : UInt32) (source : String) : (b.enqueue bytes direction flags source).2.Tended := by
  unfold Broker.enqueue
  split
  · exact hb.same rfl rfl rfl
  · exact hb.same rfl rfl rfl

/-- Once it is answered a copy is owed no more. -/
theorem Tended.redeem {b : Broker} (hb : b.Tended) (c : Correlation) (d : Directive) :
    (b.redeem c d).2.Tended := by
  have htaken : ((b.dropCorrelation c.packetId).count .directives [("op", d.name)]).Tended :=
    hb.shrunk rfl (List.Subset.refl _) (List.filter_sublist.subset)
  unfold Broker.redeem
  cases d with
  | forward packet direction => exact htaken.enqueue packet _ _ _
  | finish packet direction => exact htaken.enqueue packet _ _ _
  | pass => exact htaken
  | cancel => exact htaken

/-- An answer leaves nobody waiting in vain, whether it is taken or refused. -/
theorem Tended.respond {b : Broker} (hb : b.Tended) (ext : String) (r : Response) :
    (b.respond ext r).2.Tended := by
  have hcount : (b.count .directives [("op", r.directive.name)]).Tended :=
    hb.same rfl rfl rfl
  cases b.answered ext r with
  | rejected hresult => rw [hresult]; exact hb.same rfl rfl rfl
  | held _ _ _ _ hresult => rw [hresult]; exact hcount.apply _ _
  | owned _ _ _ _ hresult => rw [hresult]; exact hb.redeem _ _

theorem Tended.inject {b : Broker} (hb : b.Tended) (bytes : Bytes) (direction : Direction)
    (flags : UInt32) : (b.inject bytes direction flags).2.Tended := by
  unfold Broker.inject decode
  cases Packet.decode b.settings.decodeMode bytes with
  | error e => exact hb.same rfl rfl rfl
  | ok packet => exact hb.enqueue bytes direction flags _

/-! ## housekeeping -/

theorem Tended.foldl_dropAbandoned {b : Broker} (hb : b.Tended) (ids : List UInt64) :
    (ids.foldl dropAbandoned b).Tended := by
  induction ids generalizing b with
  | nil => exact hb
  | cons id ids ih =>
      refine ih (hb.shrunk rfl ?_ (List.Subset.refl _))
      exact List.filter_sublist.subset

/-- Housekeeping leaves fewer chains and copies, and no others. -/
theorem Tended.prune {b : Broker} (hb : b.Tended) : b.prune.Tended := by
  refine Tended.foldl_dropAbandoned ?_ _
  exact hb.shrunk rfl (List.Subset.refl _) (List.filter_sublist.subset)

/-- A sweep leaves chains with clients that are there. -/
theorem Tended.sweep {b : Broker} (hb : b.Tended) : b.sweep.2.Tended := hb.prune.foldl_expire _

/-! ## every state -/

/-- At first nobody waits. -/
theorem tended_new (settings : BrokerSettings) : (Broker.new settings).Tended := by
  constructor
  · intro c hc; cases hc
  · intro x hx; cases hx
  · intro c hc; cases hc

/-- No event leaves anybody waiting for a session that is gone. -/
theorem Tended.step {b : Broker} (hb : b.Tended) (e : Event) : (b.step e).Tended := by
  cases e with
  | register ext is capacity => exact hb.register ext is capacity
  | unregister ext => exact hb.unregister ext
  | unregisterSession ext session => exact hb.unregisterSession ext session
  | submit bytes direction flags => exact hb.submit bytes direction flags
  | poll id => exact hb.poll id
  | expire id => exact hb.expire id
  | abandon id => exact hb.abandon id
  | respond ext r => exact hb.respond ext r
  | inject bytes direction flags => exact hb.inject bytes direction flags
  | prune => exact hb.prune
  | sweep => exact hb.sweep
  | later ms => exact hb.same rfl rfl rfl
  | takeFrames session n => exact hb.same rfl rfl rfl
  | closeLink session => exact hb.same rfl rfl rfl
  | takeInjected n => exact hb.same rfl rfl rfl
  | closeInjected => exact hb.same rfl rfl rfl

/-- Nobody ever waits for a session that is gone. -/
theorem Reachable.tended {settings : BrokerSettings} {b : Broker} (h : Reachable settings b) :
    b.Tended := by
  induction h with
  | new => exact tended_new settings
  | step e _ ih => exact ih.step e
  | reordered _ hp ih => exact ih.shrunk rfl hp.subset (List.Subset.refl _)

/-- **No chain waits for a vanished session.**  Whatever has happened in whatever order, every chain
has a holder, a blocking client of the registration that its extension has now, which the chain
remembers; and every copy for which an answer may come belongs to the current session of its
extension. -/
theorem Reachable.chains_held {settings : BrokerSettings} {b : Broker} (h : Reachable settings b) :
    (∀ a ∈ b.chains, ∃ holder, a.chain.holder = some holder ∧ holder.interest.isBlocking = true ∧
        b.registry.isCurrent holder.ext holder.session = true ∧ b.registry.Serves holder ∧
        holder.key ∈ a.chain.visited) ∧
      ∀ c ∈ b.correlations, b.registry.isCurrent c.ext c.session = true := by
  have hb := h.tended
  refine ⟨fun a ha => ?_, hb.owed⟩
  obtain ⟨holder, hh, hblock, hserves, hvisited⟩ := hb.held a ha
  exact ⟨holder, hh, hblock, hserves.isCurrent, hserves, hvisited⟩

/-- The extension at which a chain waits registers anew while an observer has a copy of the packet:
the chain goes on to the next client, and the copy stays. -/
theorem chains_held_after_replacement :
    ∃ b, Reachable {} b ∧
    b.chains.map (·.chain.holder.map (·.ext)) = [some "second"] ∧
    b.correlations.map (·.ext) = ["observer"] ∧
    (∀ a ∈ b.chains, ∃ holder, a.chain.holder = some holder ∧ holder.interest.isBlocking = true ∧
        b.registry.isCurrent holder.ext holder.session = true ∧ b.registry.Serves holder ∧
        holder.key ∈ a.chain.visited) ∧
      ∀ c ∈ b.correlations, b.registry.isCurrent c.ext c.session = true := by
  let text : Interest := { id := 1, kind := .net .genericText }
  let run : List Event := [
    .register "first" [text] 4, .register "second" [text] 4,
    .register "observer" [{ text with blocking := .sendAndForget }] 4,
    .submit [2, 0, 0, 0, 0] .clientToServer 0, .register "first" [text] 4]
  have h : Reachable {} (run.foldl Broker.step (.new {})) := Reachable.new.foldl run
  exact ⟨_, h, by cbv, by cbv, h.chains_held⟩

end Broker

end Intercept
