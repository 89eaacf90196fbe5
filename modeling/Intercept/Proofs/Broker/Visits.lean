import Mathlib
import Intercept.Proofs.Broker.Account

/-!
# Intercept.Proofs.Broker.Visits

Nobody gets a chain twice, and a chain counts whom it has been to.

```
visits id J            the clients that the chain id has been handed to, in vain or not
c.Waits (cs ++ [h])    c is at h, remembers cs ++ [h] and counts cs
c.Ready cs step        c has been to cs, counts all of them, and step comes next
```

A chain goes back and forth between the two: a directive makes a chain that
waits ready (`Waits.advance`), a dispatch makes a ready chain wait
(`Ready.waits`), and the fallback for a failed delivery is one after the other.
The count is the number of visits until it reaches `Chain.maxHits`, the largest
that a frame can tell, and stays there.
-/

namespace Intercept

/-- The visits of a chain after a note. A chain that starts anew under an id has been nowhere. -/
def Note.visited (id : UInt64) (before : List Client) : Note → List Client
  | started c => if c.id = id then [] else before
  | handed c client _ => if c.id = id then before ++ [client] else before
  | happened _ | directed .. | ended .. | dropped _ | copied .. | redeemed .. | injected .. =>
    before

/-- The clients that the chain with this id has been handed to, the first one first. -/
def visits (id : UInt64) (J : List Note) : List Client := J.foldl (Note.visited id) []

@[simp] theorem visits_concat (id : UInt64) (J : List Note) (n : Note) :
    visits id (J ++ [n]) = n.visited id (visits id J) := by
  simp only [visits, List.foldl_append, List.foldl_cons, List.foldl_nil]

/-- Notes about no chain are no visits. -/
theorem visits_append (id : UInt64) (J : List Note) {N : List Note} (h : ∀ n ∈ N, n.chain? = none) :
    visits id (J ++ N) = visits id J := by
  induction N generalizing J with
  | nil => rw [List.append_nil]
  | cons n ns ih =>
      rw [List.append_cons, ih _ fun m hm => h m (List.mem_cons_of_mem n hm), visits_concat]
      have hn := h n List.mem_cons_self
      cases n with
      | happened | copied | redeemed | injected => rfl
      | started | directed | handed | ended | dropped => cases hn

/-! ## the two states of a chain -/

namespace Chain

/-- The chain is at the last of the clients that it has been to, and counts those before. -/
def Waits (c : Chain) (been : List Client) : Prop :=
  ∃ before holder, been = before ++ [holder] ∧ c.holder = some holder ∧
    c.visited = been.map Client.key ∧ c.visited.Nodup ∧ c.hitCount = min before.length maxHits

/-- The chain has been to some clients, counts them all, and a step comes next. -/
def Ready (c : Chain) (been : List Client) (step : Step) : Prop :=
  c.visited.Nodup ∧ c.hitCount = min been.length maxHits ∧
    match step with
    | .dispatch client => c.holder = some client ∧ c.visited = (been ++ [client]).map Client.key
    | .finished | .cancelled => c.visited = been.map Client.key

/-- A chain that is dispatched waits for whom it is dispatched to. -/
theorem Ready.waits {c : Chain} {been : List Client} {client : Client}
    (h : c.Ready been (.dispatch client)) : c.Waits (been ++ [client]) := by
  obtain ⟨hnodup, hhits, hholder, hvisited⟩ := h
  exact ⟨been, client, rfl, hholder, hvisited, hnodup, hhits⟩

/-- Making the next client the holder, or letting nobody hold the chain, makes it ready. -/
theorem ready_visit {c : Chain} {been : List Client} {client : Client}
    (hvisited : c.visited = been.map Client.key) (hnodup : c.visited.Nodup)
    (hhits : c.hitCount = min been.length maxHits) (hask : c.mayAsk client = true) :
    (c.visit client).Ready been (.dispatch client) := by
  obtain ⟨_, hnew⟩ := (mayAsk_iff c client).mp hask
  refine ⟨?_, hhits, rfl, ?_⟩
  · simp only [visit, List.nodup_append, List.nodup_singleton, List.mem_singleton, true_and]
    refine ⟨hnodup, fun k hk k' hk' => ?_⟩
    rw [hk']
    exact fun he => hnew (he ▸ hk)
  · simp only [visit, hvisited, List.map_append, List.map_cons, List.map_nil]

/-- A chain that waits is made ready by any directive, and has counted one more. -/
theorem Waits.advance {c : Chain} {been : List Client} (h : c.Waits been) (r : Registry)
    (mode : DecodeMode) (d : Directive) :
    (c.advance r mode d).2.Ready been (c.advance r mode d).1 := by
  obtain ⟨before, holder, rfl, _, hvisited, hnodup, hhits⟩ := h
  have hv : (c.taking mode d).visited = (before ++ [holder]).map Client.key := by
    rw [taking_visited, hvisited]
  have hn : (c.taking mode d).visited.Nodup := by
    rw [taking_visited]
    exact hnodup
  have hh : (c.taking mode d).hitCount = min (before ++ [holder]).length maxHits := by
    rw [taking_hitCount, hhits, List.length_append, List.length_singleton]
    omega
  obtain ⟨client, _, hask, hnext⟩ | hnext | hnext := advance_cases c r mode d
  · rw [hnext]
    exact ready_visit hv hn hh hask
  · rw [hnext]
    exact ⟨hn, hh, hv⟩
  · rw [hnext]
    exact ⟨hn, hh, hv⟩

/-- A chain is ready when it begins, and has been nowhere. -/
theorem ready_nextFrom {c : Chain} (hvisited : c.visited = []) (hhits : c.hitCount = 0)
    (candidates : List Client) : (c.nextFrom candidates).2.Ready [] (c.nextFrom candidates).1 := by
  have hn : c.visited.Nodup := by
    rw [hvisited]
    exact List.nodup_nil
  have hh : c.hitCount = min ([] : List Client).length maxHits := by
    rw [hhits]
    exact (Nat.zero_min _).symm
  obtain ⟨client, _, hask, hnext⟩ | hnext := nextFrom_cases c candidates
  · rw [hnext]
    exact ready_visit hvisited hn hh hask
  · rw [hnext]
    exact ⟨hn, hh, hvisited⟩

end Chain

/-! ## the law of the journal -/

/-- A hand-over is to somebody new, and what is told of a chain counts the visits before it. -/
def AdmitsVisit (J : List Note) : Note → Prop
  | .handed c client _ =>
    ((visits c.id J ++ [client]).map Client.key).Nodup ∧
      c.hitCount = min (visits c.id J).length Chain.maxHits
  | .ended c outcome =>
    c.hitCount = min (visits c.id J).length Chain.maxHits ∧
      c.visited = (visits c.id J).map Client.key ∧
      (outcome = .forward c.outgoing ∨ outcome = .cancelled c.outgoing)
  | .happened _ | .started _ | .directed .. | .dropped _ | .copied .. | .redeemed ..
  | .injected .. => True

/-- A note about no chain is a visit to nobody. -/
theorem admitsVisit_of_chain?_eq_none (J : List Note) {n : Note} (h : n.chain? = none) :
    AdmitsVisit J n := by
  cases n with
  | happened | copied | redeemed | injected => trivial
  | started | directed | handed | ended | dropped => cases h

/-- What a ready chain is handed to is admitted, and so is its end. -/
theorem admitsVisit_handed {J : List Note} {c : Chain} {client : Client} (sent : Bool)
    (h : c.Ready (visits c.id J) (.dispatch client)) : AdmitsVisit J (.handed c client sent) := by
  obtain ⟨hnodup, hhits, _, hvisited⟩ := h
  rw [hvisited] at hnodup
  exact ⟨hnodup, hhits⟩

/-- In a lawful journal nobody is visited twice. -/
theorem Lawful.nodup_visits {J : List Note} (h : Lawful AdmitsVisit J) (id : UInt64) :
    ((visits id J).map Client.key).Nodup := by
  induction J using List.reverseRecOn with
  | nil => exact List.nodup_nil
  | append_singleton J n ih =>
      obtain ⟨hJ, hn⟩ := lawful_concat.mp h
      have ih := ih hJ
      rw [visits_concat]
      cases n with
      | started c =>
          by_cases hid : c.id = id
          · simp only [Note.visited, if_pos hid]
            exact List.nodup_nil
          · simp only [Note.visited, if_neg hid]
            exact ih
      | handed c client sent =>
          by_cases hid : c.id = id
          · subst hid
            simp only [Note.visited, ↓reduceIte]
            exact hn.1
          · simp only [Note.visited, if_neg hid]
            exact ih
      | happened | directed | ended | dropped | copied | redeemed | injected => exact ih

/-! ## every move keeps the count -/

namespace Broker

/-- The journal is lawful, and every chain counts its visits: one that is carried on is ready, the
others wait. -/
structure Counted (m : Moment) : Prop where
  lawful : Lawful AdmitsVisit m.journal
  waits : ∀ x ∈ m.broker.chains, (∀ f ∈ m.flight, x.chain.id ≠ f.1.chain.id) →
    x.chain.Waits (visits x.chain.id m.journal)
  ready : ∀ f ∈ m.flight, f.1.chain.Ready (visits f.1.chain.id m.journal) f.2

/-- As long as nobody is handed a chain, nothing but the table matters. -/
theorem Counted.quiet {J J' : List Note} {b b' : Broker} (h : Counted ⟨J, b, none⟩)
    (hlaw : Lawful AdmitsVisit J') (hvisits : ∀ id, visits id J' = visits id J)
    (hchains : ∀ x ∈ b'.chains, ∃ y ∈ b.chains, y.chain = x.chain) : Counted ⟨J', b', none⟩ := by
  constructor
  · exact hlaw
  · intro x hx _
    obtain ⟨y, hy, hyx⟩ := hchains x hx
    have hw := h.waits y hy (fun f hf => by cases hf)
    rw [hvisits, ← hyx]
    exact hw
  · intro f hf
    cases hf

/-- What is told of no chain changes no count, as long as the chains are the same. -/
theorem Counted.silent {J N : List Note} {b b' : Broker} (h : Counted ⟨J, b, none⟩)
    (hN : ∀ n ∈ N, n.chain? = none) (hchains : b'.chains = b.chains) :
    Counted ⟨J ++ N, b', none⟩ := by
  refine h.quiet (h.lawful.append fun p n hn => admitsVisit_of_chain?_eq_none p (hN n hn))
    (fun id => visits_append id J hN) fun x hx => ?_
  rw [hchains] at hx
  exact ⟨x, hx, rfl⟩

theorem Counted.still {J : List Note} {b b' : Broker} (h : Counted ⟨J, b, none⟩)
    (hchains : ∀ x ∈ b'.chains, ∃ y ∈ b.chains, y.chain = x.chain) : Counted ⟨J, b', none⟩ :=
  h.quiet h.lawful (fun _ => rfl) hchains

/-- A directive makes its chain ready. -/
theorem Counted.directed {J : List Note} {b : Broker} {a : ActiveChain} {d : Directive}
    {cause : Cause} (h : Counted ⟨J, b, none⟩) (ha : b.chain? a.chain.id = some a) :
    Counted ⟨J ++ [.directed a.chain cause d], b.counted d cause, some (b.advanced a d)⟩ := by
  have hwaits : ∀ x ∈ b.chains, x.chain.Waits (visits x.chain.id J) :=
    fun x hx => h.waits x hx (fun f hf => by cases hf)
  constructor
  · exact lawful_concat.mpr ⟨h.lawful, trivial⟩
  · intro x hx _
    rw [visits_concat]
    exact hwaits x hx
  · rintro f ⟨rfl⟩
    rw [visits_concat]
    simp only [advanced, Chain.advance_id]
    exact (hwaits a (chain?_eq_some ha).1).advance _ _ _

/-- A hand-over has its chain wait for one more client. -/
theorem Counted.handed {J : List Note} {b sent : Broker} {a : ActiveChain} {client : Client}
    (h : Counted ⟨J, b, some (a, .dispatch client)⟩)
    (hs : b.trySend client.ext (a.chain.frameFor client) = some sent) :
    Counted ⟨J ++ [.handed a.chain client true], sent.setChain { a with hopStarted := b.now },
      none⟩ := by
  have hready := h.ready _ rfl
  constructor
  · exact lawful_concat.mpr ⟨h.lawful, admitsVisit_handed true hready⟩
  · intro x hx _
    rw [visits_concat]
    cases mem_chains_setChain hx with
    | inl he =>
        subst he
        simp only [Note.visited, ↓reduceIte]
        exact hready.waits
    | inr hold =>
        obtain ⟨hx, hne⟩ := hold
        rw [chains_of_trySend hs] at hx
        simp only [Note.visited, if_neg (Ne.symm hne)]
        exact h.waits x hx (by rintro f ⟨rfl⟩; exact hne)
  · intro f hf
    cases hf

/-- A failed delivery is a visit and, at once, the fallback. -/
theorem Counted.missed {J : List Note} {b b' : Broker} {a : ActiveChain} {client : Client}
    {d : Directive} (h : Counted ⟨J, b, some (a, .dispatch client)⟩)
    (hchains : b'.chains = b.chains) :
    Counted ⟨J ++ [.handed a.chain client false] ++ [.directed a.chain .disconnect d], b',
      some (b.advanced a d)⟩ := by
  have hready := h.ready _ rfl
  constructor
  · exact lawful_concat.mpr ⟨lawful_concat.mpr ⟨h.lawful, admitsVisit_handed false hready⟩, trivial⟩
  · intro x hx hflight
    have hne : x.chain.id ≠ a.chain.id := by
      have := hflight _ rfl
      rwa [advanced, Chain.advance_id] at this
    rw [hchains] at hx
    rw [visits_concat, visits_concat]
    simp only [Note.visited, if_neg (Ne.symm hne)]
    exact h.waits x hx (by rintro f ⟨rfl⟩; exact hne)
  · rintro f ⟨rfl⟩
    rw [visits_concat, visits_concat]
    simp only [advanced, Chain.advance_id, Note.visited, ↓reduceIte]
    exact hready.waits.advance _ _ _

/-- An outcome tells the visits that its chain has counted. -/
theorem Counted.ended {J : List Note} {b : Broker} {a : ActiveChain} {step : Step} {o : Outcome}
    (h : Counted ⟨J, b, some (a, step)⟩)
    (ho : step = .finished ∧ o = .forward a.chain.outgoing ∨
      step = .cancelled ∧ o = .cancelled a.chain.outgoing) :
    Counted ⟨J ++ [.ended a.chain o], b.conclude a o, none⟩ := by
  have hended : AdmitsVisit J (.ended a.chain o) := by
    obtain ⟨_, hhits, hvisited⟩ := h.ready _ rfl
    obtain ⟨rfl, rfl⟩ | ⟨rfl, rfl⟩ := ho
    · exact ⟨hhits, hvisited, .inl rfl⟩
    · exact ⟨hhits, hvisited, .inr rfl⟩
  constructor
  · exact lawful_concat.mpr ⟨h.lawful, hended⟩
  · intro x hx _
    rw [chains_conclude, mem_chains_dropChain] at hx
    rw [visits_concat]
    exact h.waits x hx.1 (by rintro f ⟨rfl⟩; exact hx.2)
  · intro f hf
    cases hf

/-- A new chain has counted nothing. -/
theorem Counted.started {J : List Note} {b b' : Broker} {c : Chain} {a : ActiveChain}
    {candidates : List Client} (h : Counted ⟨J, b, none⟩) (hvisited : c.visited = [])
    (hhits : c.hitCount = 0) (ha : a.chain = (c.nextFrom candidates).2)
    (hchains : b'.chains = (b.addChain a).chains) :
    Counted ⟨J ++ [.started c], b', some (a, (c.nextFrom candidates).1)⟩ := by
  have hid : a.chain.id = c.id := by rw [ha, Chain.nextFrom_id]
  constructor
  · exact lawful_concat.mpr ⟨h.lawful, trivial⟩
  · intro x hx hflight
    have hne : x.chain.id ≠ a.chain.id := hflight _ rfl
    rw [visits_concat]
    simp only [Note.visited, if_neg (hid ▸ hne.symm)]
    simp only [hchains, addChain, List.mem_append, List.mem_filter, List.mem_singleton] at hx
    cases hx with
    | inl hold => exact h.waits x hold.1 (fun f hf => by cases hf)
    | inr he => exact absurd (by rw [he]) hne
  · rintro f ⟨rfl⟩
    rw [visits_concat, hid, ha]
    simp only [Note.visited, ↓reduceIte]
    exact Chain.ready_nextFrom hvisited hhits candidates

/-- Every move keeps the counts. -/
theorem Counted.move {m m' : Moment} (hmove : Move m m') (h : Counted m) : Counted m' := by
  cases hmove with
  | happened e =>
      refine h.silent (N := [.happened e]) ?_ rfl
      intro n hn
      rw [List.mem_singleton] at hn
      rw [hn]
      rfl
  | directed ha _ => exact h.directed ha
  | handed hs => exact h.handed hs
  | missed _ => exact h.missed rfl
  | finished => exact h.ended (.inl ⟨rfl, rfl⟩)
  | cancelled => exact h.ended (.inr ⟨rfl, rfl⟩)
  | joined | replaced | left | refused | taken | forgot => exact h.still fun x hx => ⟨x, hx, rfl⟩
  | copied flags _ _ _ =>
      exact h.silent (chain?_notifyNotes _ _ _ _ _) (told_notify _ _ _ _ _).chains
  | started direction flags _ hc hnext =>
      subst hc hnext
      exact h.started rfl rfl rfl rfl
  | abandoned ha =>
      refine h.still fun x hx => ?_
      cases mem_chains_setChain hx with
      | inl he => exact ⟨_, (chain?_eq_some ha).1, by rw [he]⟩
      | inr hold => exact ⟨x, hold.1, rfl⟩
  | redeemed d _ _ => exact h.silent (chain?_redeemNotes _ _ _) (posted_redeem _ _ _).chains
  | pushed direction flags _ =>
      exact h.silent (chain?_enqueueNotes _ _ _ _ _) (posted_enqueue _ _ _ _ _).chains
  | dropped _ _ =>
      refine h.quiet (lawful_concat.mpr ⟨h.lawful, trivial⟩) (fun id => visits_concat id _ _)
        fun x hx => ?_
      exact ⟨x, (List.mem_filter.mp hx).1, rfl⟩
  | outside he =>
      refine h.still fun x hx => ?_
      rw [chains_outside he] at hx
      exact ⟨x, hx, rfl⟩
  | reordered hp => exact h.still fun x hx => ⟨x, hp.subset hx, rfl⟩

/-- In every run the chains count their visits. -/
theorem Run.counted {settings : BrokerSettings} {J : List Note} {b : Broker}
    (h : Run settings J b) : Counted ⟨J, b, none⟩ := by
  refine h.induct ⟨lawful_nil _, ?_, ?_⟩ fun _ _ hmove hm => Counted.move hmove hm
  · intro x hx
    cases hx
  · intro f hf
    cases hf

/-- **Nobody gets a chain twice, and the chain counts whom it has been to.**  Over every run,
deliveries in vain included, the clients that a chain is handed to have different keys.  While it
waits it is at the last of them and has counted the others; each of its frames tells how many came
before, and its outcome tells how many there were, as long as a count can tell.  The frames and
outcomes of the journal are those that sessions and callers get. -/
theorem Run.visits_counted {settings : BrokerSettings} {J : List Note} {b : Broker}
    (h : Run settings J b) :
    Accounted J b ∧
    (∀ p : List Note, p <+: J → ∀ id, ((visits id p).map Client.key).Nodup) ∧
    (∀ a ∈ b.chains, ∃ before holder, visits a.chain.id J = before ++ [holder] ∧
      a.chain.holder = some holder ∧
      a.chain.visited = (before ++ [holder]).map Client.key ∧
      a.chain.hitCount = min before.length Chain.maxHits) ∧
    (∀ (p : List Note) (c : Chain) (client : Client) (sent : Bool),
      p ++ [Note.handed c client sent] <+: J →
      (c.frameFor client).hitCount.toNat = min (visits c.id p).length Chain.maxHits) ∧
    (∀ (p : List Note) (c : Chain) (outcome : Outcome), p ++ [Note.ended c outcome] <+: J →
      c.visited = (visits c.id p).map Client.key ∧
      ∃ packet : Outgoing, (outcome = .forward packet ∨ outcome = .cancelled packet) ∧
        packet.packetId = c.id ∧
        packet.hitCount = min (visits c.id p).length Chain.maxHits) := by
  have hcounted := h.counted
  refine ⟨h.accounted, fun p hp id => (hcounted.lawful.take hp).nodup_visits id, fun a ha => ?_,
    fun p c client sent hp => ?_, fun p c outcome hp => ?_⟩
  · obtain ⟨before, holder, hbeen, hholder, hvisited, _, hhits⟩ :=
      hcounted.waits a ha (fun f hf => by cases hf)
    exact ⟨before, holder, hbeen, hholder, hbeen ▸ hvisited, hhits⟩
  · obtain ⟨_, hhits⟩ := hcounted.lawful _ _ hp
    have hfits : c.hitCount < UInt32.size := by
      rw [hhits]
      exact lt_of_le_of_lt (Nat.min_le_right _ _) (by decide)
    rw [← hhits]
    exact UInt32.toNat_ofNat_of_lt' hfits
  · obtain ⟨hhits, hvisited, hout⟩ := hcounted.lawful _ _ hp
    exact ⟨hvisited, c.outgoing, hout, rfl, hhits⟩

/-- The second of three clients has no room, and the first registers anew while it is asked: the
chain has been to all three, has counted two when it comes to the last, and does not go back to the
first. -/
theorem visits_counted_past_a_full_link :
    ∃ J b, Run {} J b ∧
    (visits 1 J).map (·.ext) = ["first", "second", "third"] ∧
    b.chains.map (·.chain.hitCount) = [2] ∧
    ((visits 1 J).map Client.key).Nodup ∧
    ∀ a ∈ b.chains, ∃ before holder, visits a.chain.id J = before ++ [holder] ∧
      a.chain.holder = some holder ∧
      a.chain.visited = (before ++ [holder]).map Client.key ∧
      a.chain.hitCount = min before.length Chain.maxHits := by
  let text : Interest := { id := 1, kind := .net .genericText }
  let run : List Event := [
    .register "first" [text] 4, .register "second" [text] 0, .register "third" [text] 4,
    .submit [2, 0, 0, 0, 0] .clientToServer 0, .register "first" [text] 4]
  have h : Run {} _ (run.foldl Broker.step (.new {})) := Run.new.foldl run
  obtain ⟨_, hnodup, hpending, _⟩ := h.visits_counted
  exact ⟨_, _, h, by cbv, by cbv, hnodup _ (List.prefix_refl _) 1, hpending⟩

end Broker

end Intercept
