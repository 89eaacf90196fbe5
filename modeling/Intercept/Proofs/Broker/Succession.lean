import Intercept.Broker.Caller
import Intercept.Proofs.Broker.Content
import Intercept.Proofs.Broker.Roster

/-!
# Intercept.Proofs.Broker.Succession

Whom a chain goes to.

```
r.inLine p dir        everybody who wants the packet, by priority and then by registration
r.successor? c        the first of them who blocks and whose key the chain does not remember
Steady b N b'         some events lead from b to b', and the registry stays
```

A chain that goes on goes to its successor, or ends if there is none
(`goOn_eq`).  So a packet starts a chain exactly if somebody in line blocks
(`submit_cases`), and as long as the registry stays and everybody passes, the
chain goes along the line (`Legal.walk`).
-/

namespace Intercept

/-! ## the successor -/

namespace Registry

/-- Those in line who have to be asked. -/
def blockers (r : Registry) (p : Packet) (direction : Direction) : List Subscription :=
  (r.inLine p direction).filter (·.interest.isBlocking)

/-- The first in line who has to be asked and has not been asked. -/
def successor? (r : Registry) (c : Chain) : Option Subscription :=
  (r.blockers c.packet c.direction).find? fun s => !c.visited.contains s.key

theorem mem_blockers {r : Registry} {p : Packet} {direction : Direction} {s : Subscription} :
    s ∈ r.blockers p direction ↔
      s ∈ r.subscriptions ∧ s.wants p direction = true ∧ s.interest.isBlocking = true := by
  rw [blockers, inLine, List.mem_filter, List.mem_mergeSort, List.mem_filter, and_assoc]

theorem map_filter_matching {r : Registry} (hr : r.Filed) (p : Packet) (direction : Direction) :
    ((r.matching p direction).filter (·.interest.isBlocking)).map Client.subscription =
      r.blockers p direction := by
  rw [blockers, ← matching_map_subscription hr, List.filter_map]
  rfl

/-- **A chain that goes on goes to its successor.** -/
theorem goOn_eq {r : Registry} (hr : r.Filed) (c : Chain) :
    match r.successor? c with
    | some s => ∃ client, client.subscription = s ∧
        c.goOn r = (.dispatch client, c.visit client)
    | none => c.goOn r = (.finished, c.leave) := by
  have hfind : r.successor? c = ((r.matching c.packet c.direction).find? c.mayAsk).map
      Client.subscription := by
    rw [successor?, ← map_filter_matching hr, List.find?_map, List.find?_filter]
    congr 2
    funext client
    rw [Bool.eq_iff_iff, Chain.mayAsk_iff, decide_eq_true_iff, Function.comp_apply,
      Bool.not_eq_true', List.contains_eq_mem, decide_eq_false_iff_not]
    rfl
  rw [hfind, Chain.goOn, Chain.nextFrom]
  cases (r.matching c.packet c.direction).find? c.mayAsk with
  | none => rfl
  | some client => exact ⟨client, rfl, rfl⟩

end Registry

/-! ## what goes on -/

theorem Note.next?_of_goesOn {n : Note} {x : Chain} (r : Registry) {mode : DecodeMode}
    (hgoes : n.goesOn = true) (hx : n.after? mode = some x) : n.next? r mode = some (x.goOn r) := by
  cases n with
  | started c =>
      cases hx
      rfl
  | directed c cause d =>
      cases hx
      rw [Note.next?, Chain.advance_of_goesOn c r mode hgoes]
  | happened | handed | ended | dropped | copied | redeemed | injected => cases hgoes

/-- What is noted of a chain that goes on: the hand-over to its successor, or its end. -/
theorem noted_goOn {r : Registry} (hr : r.Filed) {x : Chain} {m : Note} (h : Noted (x.goOn r) m) :
    match r.successor? x with
    | some s => ∃ client sent, client.subscription = s ∧ m = .handed (x.visit client) client sent
    | none => m = .ended x.leave (.forward x.leave.outgoing) := by
  have hgo := Registry.goOn_eq hr x
  cases hs : r.successor? x with
  | none =>
      rw [hs] at hgo
      dsimp only at hgo
      rw [hgo] at h
      exact h
  | some s =>
      rw [hs] at hgo
      obtain ⟨client, hclient, hgo⟩ := hgo
      rw [hgo] at h
      obtain ⟨sent, hm⟩ := h
      exact ⟨client, sent, hclient, hm⟩

theorem Heeds.goOn {r : Registry} {mode : DecodeMode} {N M : List Note} {n : Note} {x : Chain}
    (hr : r.Filed) (h : Heeds r mode (N ++ n :: M)) (hgoes : n.goesOn = true)
    (hx : n.after? mode = some x) :
    match r.successor? x with
    | some s => ∃ client sent M', client.subscription = s ∧
        M = .handed (x.visit client) client sent :: M'
    | none => ∃ M', M = .ended x.leave (.forward x.leave.outgoing) :: M' := by
  obtain ⟨m, hm, hnoted⟩ := h.of_append.1 _ (Note.next?_of_goesOn r hgoes hx)
  have hnoted := noted_goOn hr hnoted
  obtain ⟨M', rfl⟩ := List.head?_eq_some_iff.mp hm
  cases hs : r.successor? x with
  | none =>
      rw [hs] at hnoted
      exact ⟨M', congrArg (· :: M') hnoted⟩
  | some s =>
      rw [hs] at hnoted
      obtain ⟨client, sent, hclient, hm⟩ := hnoted
      exact ⟨client, sent, M', hclient, congrArg (· :: M') hm⟩

/-! ## along the line -/

/-- The note, if something happens behind the one before, is the note of that. -/
def Heeded (r : Registry) (mode : DecodeMode) (l n : Note) : Prop :=
  ∀ next, l.next? r mode = some next → Noted next n

theorem Noted.chain? {next : Step × Chain} {m : Note} (h : Noted next m) :
    m.chain? = some next.2 := by
  obtain ⟨step, c⟩ := next
  cases step with
  | dispatch client =>
      obtain ⟨sent, rfl⟩ := h
      rfl
  | finished => rw [show m = .ended c (.forward c.outgoing) from h]; rfl
  | cancelled => rw [show m = .ended c (.cancelled c.outgoing) from h]; rfl

theorem Note.next?_id {n : Note} {c : Chain} {r : Registry} {mode : DecodeMode}
    {next : Step × Chain} (hc : n.chain? = some c) (h : n.next? r mode = some next) :
    next.2.id = c.id := by
  cases n with
  | started c =>
      cases hc
      cases h
      exact Chain.nextFrom_id _ _
  | directed c cause d =>
      cases hc
      cases h
      exact Chain.advance_id _ _ _ _
  | happened | handed | ended | dropped | copied | redeemed | injected => cases h

/-- What happens to a chain is the next thing that is told of it. -/
theorem Heeds.isChain_filter {r : Registry} {mode : DecodeMode} {N : List Note}
    (h : Heeds r mode N) (id : UInt64) : (N.filter (·.concerns id)).IsChain (Heeded r mode) := by
  induction N with
  | nil => exact List.IsChain.nil
  | cons n ns ih =>
      have ih := ih h.2
      cases hn : n.concerns id with
      | false =>
          rw [List.filter_cons_of_neg (by simp [hn])]
          exact ih
      | true =>
          rw [List.filter_cons_of_pos (p := fun m : Note => m.concerns id) hn]
          refine ih.cons fun m hm next hnext => ?_
          obtain ⟨k, hk, hnoted⟩ := h.1 next hnext
          obtain ⟨c, hc, hid⟩ := (concerns_iff n id).mp hn
          have hconcerns : k.concerns id = true :=
            (concerns_iff k id).mpr ⟨_, hnoted.chain?, (Note.next?_id hc hnext).trans hid⟩
          obtain ⟨ns', rfl⟩ := List.head?_eq_some_iff.mp hk
          rw [List.filter_cons_of_pos (p := fun m : Note => m.concerns id) hconcerns] at hm
          cases hm
          exact hnoted

/-- Behind those of a line with different keys who have been asked, the next one comes. -/
theorem find?_append_of_nodup {V rest : List Subscription}
    (h : ((V ++ rest).map Subscription.key).Nodup) :
    (V ++ rest).find? (fun s => !(V.map Subscription.key).contains s.key) = rest.head? := by
  rw [List.map_append, List.nodup_append] at h
  have hasked : V.find? (fun s => !(V.map Subscription.key).contains s.key) = none := by
    rw [List.find?_eq_none]
    intro s hs
    simpa using ⟨s, hs, rfl⟩
  rw [List.find?_append, hasked, Option.none_or]
  cases rest with
  | nil => rfl
  | cons s rest =>
      have hnew : s.key ∉ V.map Subscription.key := by
        intro hs
        exact h.2.2 _ hs _ (List.mem_map_of_mem List.mem_cons_self) rfl
      rw [List.find?_cons_of_pos (by simpa using hnew)]
      rfl

variable {settings : BrokerSettings} {c₀ : Chain} {T : List Note} {l : Note}

/-- A chain to which everybody passes still is what it was when it started. -/
theorem Legal.unchanged (h : Legal settings (.started c₀ :: T))
    (hfresh : c₀.Fresh settings.decodeMode) (hl : (Note.started c₀ :: T).getLast? = some l)
    (hpass : ∀ d ∈ directives T, d = .pass) {x : Chain}
    (hx : l.after? settings.decodeMode = some x) :
    x.packet = c₀.packet ∧ x.direction = c₀.direction := by
  have hcarries := h.carries hfresh.decoded hl x hx
  have hnone : replacements settings.decodeMode (directives T) = [] := by
    rw [replacements, List.filterMap_eq_nil_iff]
    intro d hd
    rw [hpass d hd]
    rfl
  have hbytes : x.bytes = c₀.bytes := by
    rw [hcarries.content.bytes_eq, hnone]
    rfl
  have hdecoded := hcarries.decoded
  rw [hbytes, hfresh.decoded] at hdecoded
  refine ⟨(Except.ok.inj hdecoded).symm, ?_⟩
  rw [hcarries.content.direction_eq, hnone]
  rfl

theorem goesOn_of_pass (hpass : ∀ d ∈ directives T, d = .pass)
    (hl : (Note.started c₀ :: T).getLast? = some l) (hopens : l.opens = true) :
    l.goesOn = true := by
  cases l with
  | started c => rfl
  | directed c cause d =>
      cases List.mem_cons.mp (List.mem_of_getLast? hl) with
      | inl he => cases he
      | inr hmem =>
          rw [Note.goesOn, hpass d (List.mem_filterMap.mpr ⟨_, hmem, rfl⟩)]
          rfl
  | happened | handed | ended | dropped | copied | redeemed | injected => cases hopens

/-- The successor of a chain to which everybody passes is the next in line. -/
theorem Legal.successor?_eq {r : Registry} (h : Legal settings (.started c₀ :: T))
    (hfresh : c₀.Fresh settings.decodeMode)
    (hkeys : ((r.blockers c₀.packet c₀.direction).map Subscription.key).Nodup)
    (hpass : ∀ d ∈ directives T, d = .pass) (hl : (Note.started c₀ :: T).getLast? = some l)
    {rest : List Subscription} (hline : r.blockers c₀.packet c₀.direction =
      (T.filterMap Note.visitor?).map Client.subscription ++ rest) {x : Chain}
    (hx : l.after? settings.decodeMode = some x) : r.successor? x = rest.head? := by
  obtain ⟨hpacket, hdirection⟩ := h.unchanged hfresh hl hpass hx
  have hvisited : x.visited =
      ((T.filterMap Note.visitor?).map Client.subscription).map Subscription.key := by
    rw [h.visited_eq hfresh.unseen hl x hx, List.map_map]
    rfl
  rw [hline] at hkeys
  rw [Registry.successor?, hpacket, hdirection, hvisited, hline]
  exact find?_append_of_nodup hkeys

/-- **As long as everybody passes, the chain goes along the line**, and at its end it has been to
everybody in it. -/
theorem Legal.walk {r : Registry} (hr : r.Filed) (h : Legal settings (.started c₀ :: T))
    (hheeds : (Note.started c₀ :: T).IsChain (Heeded r settings.decodeMode))
    (hfresh : c₀.Fresh settings.decodeMode)
    (hkeys : ((r.blockers c₀.packet c₀.direction).map Subscription.key).Nodup)
    (hpass : ∀ d ∈ directives T, d = .pass) (hl : (Note.started c₀ :: T).getLast? = some l) :
    ∃ rest, r.blockers c₀.packet c₀.direction =
        (T.filterMap Note.visitor?).map Client.subscription ++ rest ∧
      ∀ c outcome, l = .ended c outcome → rest = [] ∧ outcome = .forward c.outgoing := by
  refine h.induct (P := fun T l =>
    (Note.started c₀ :: T).IsChain (Heeded r settings.decodeMode) →
    (∀ d ∈ directives T, d = .pass) →
    ∃ rest, r.blockers c₀.packet c₀.direction =
        (T.filterMap Note.visitor?).map Client.subscription ++ rest ∧
      ∀ c outcome, l = .ended c outcome → rest = [] ∧ outcome = .forward c.outgoing)
    hl ?_ (fun T k n hT hk hfollows ih hheeds hpass => ?_) hheeds hpass
  · intro _ _
    refine ⟨_, (List.nil_append _).symm, fun c outcome he => ?_⟩
    cases he
  have hchain : ((Note.started c₀ :: T) ++ [n]).IsChain (Heeded r settings.decodeMode) := hheeds
  obtain ⟨hbefore, _, hlast⟩ := List.isChain_append.mp hchain
  have hpassed : ∀ d ∈ directives T, d = .pass := by
    intro d hd
    refine hpass d ?_
    rw [directives_concat]
    exact List.mem_append_left _ hd
  obtain ⟨rest, hline, _⟩ := ih hbefore hpassed
  -- what is noted behind an opening note is what happens to the successor
  have hnoted : ∀ x, k.goesOn = true → k.after? settings.decodeMode = some x →
      match rest.head? with
      | some s => ∃ client sent, client.subscription = s ∧ n = .handed (x.visit client) client sent
      | none => n = .ended x.leave (.forward x.leave.outgoing) := by
    intro x hgoes hx
    rw [← hT.successor?_eq hfresh hkeys hpassed hk hline hx]
    exact noted_goOn hr (hlast k hk n rfl _ (Note.next?_of_goesOn r hgoes hx))
  rw [List.filterMap_append]
  cases hfollows with
  | @handed _ x client sent hgoes hx =>
      have hnoted := hnoted x hgoes hx
      cases rest with
      | nil => cases hnoted
      | cons s rest =>
          obtain ⟨client', sent', rfl, hn⟩ := hnoted
          cases hn
          exact ⟨rest, by simp [hline, Note.visitor?], fun c outcome he => by cases he⟩
  | directed _ _ =>
      exact ⟨rest, by simp [hline, Note.visitor?], fun c outcome he => by cases he⟩
  | @ended _ x hopens hx =>
      have hgoes := goesOn_of_pass hpassed hk hopens
      have hnoted := hnoted x hgoes hx
      cases rest with
      | nil =>
          refine ⟨[], by simp [hline, Note.visitor?], fun c outcome he => ⟨rfl, ?_⟩⟩
          rw [hnoted] at he
          cases he
          rfl
      | cons s rest =>
          obtain ⟨client, sent, _, hn⟩ := hnoted
          cases hn
  | dropped =>
      exact ⟨rest, by simp [hline, Note.visitor?], fun c outcome he => by cases he⟩

namespace Broker

variable {J N : List Note} {b b' : Broker}

/-- Events that leave the registry as it is, with what they add to the journal. -/
inductive Steady (b : Broker) : List Note → Broker → Prop where
  | refl : Steady b [] b
  | step {N : List Note} {b' : Broker} (e : Event) :
      Steady b N b' → (b'.step e).registry = b'.registry →
      Steady b (N ++ .happened e :: b'.notes e) (b'.step e)
  | reordered {N : List Note} {b' : Broker} {chains : List ActiveChain} :
      Steady b N b' → chains.Perm b'.chains → Steady b N { b' with chains }

theorem Steady.run (hN : Steady b N b') (h : Run settings J b) : Run settings (J ++ N) b' := by
  induction hN with
  | refl =>
      rw [List.append_nil]
      exact h
  | step e _ _ ih =>
      rw [← List.append_assoc]
      exact ih.step e
  | reordered _ hp ih => exact ih.reordered hp

theorem Steady.heeds (hN : Steady b N b') (h : Run settings J b) :
    Heeds b.registry settings.decodeMode N ∧ b'.registry = b.registry := by
  induction hN with
  | refl => exact ⟨trivial, rfl⟩
  | @step N b' e hsteady hkept ih =>
      obtain ⟨hheeds, hregistry⟩ := ih
      have hnotes := (orderly_notes b' e).heeds
      rw [hkept, hregistry, (hsteady.run h).settings_eq] at hnotes
      exact ⟨hheeds.append ⟨fun next hnext => (by cases hnext), hnotes⟩, hkept.trans hregistry⟩
  | reordered _ _ ih => exact ih

/-- Under a registry that stays, with interests that have different keys, a chain to which everybody
passes goes along the line from its start to the end. -/
theorem Steady.walk (hN : Steady b N b') (h : Run settings J b) {p q : List Note} {c : Chain}
    (hsplit : N = p ++ .started c :: q) (honce : ∀ c', .started c' ∈ q → c'.id ≠ c.id)
    (hkeys : (b.registry.subscriptions.map Subscription.key).Nodup)
    (hpass : ∀ c' cause d, .directed c' cause d ∈ q → c'.id = c.id → d = .pass) :
    (visits c.id (J ++ N)).map Client.subscription <+: b.registry.blockers c.packet c.direction ∧
      ∀ c' outcome, .ended c' outcome ∈ q → c'.id = c.id →
        (visits c.id (J ++ N)).map Client.subscription =
          b.registry.blockers c.packet c.direction ∧ outcome = .forward c'.outgoing := by
  have hrun := hN.run h
  have hthread : thread c.id (J ++ N) = .started c :: q.filter (·.concerns c.id) := by
    rw [hsplit, ← List.append_assoc, List.append_cons, thread_append, thread_concat]
    · simp [Note.threaded, Note.concerns, Note.chain?, Note.starts]
    · intro n hn hconcerns
      cases n with
      | started c' =>
          exact absurd (by simpa [Note.concerns, Note.chain?] using hconcerns) (honce c' hn)
      | _ => rfl
  have hlegal := hrun.threaded.lawful.legal c.id
  have hfresh : c.Fresh settings.decodeMode := hrun.threaded.fresh c (by rw [hsplit]; simp)
  have hheeds : (Note.started c :: q.filter (·.concerns c.id)).IsChain
      (Heeded b.registry settings.decodeMode) := by
    have hall := (hN.heeds h).1
    rw [hsplit] at hall
    have hfilter := hall.of_append.isChain_filter c.id
    rwa [List.filter_cons_of_pos (by simp [Note.concerns, Note.chain?])] at hfilter
  have hline : ((b.registry.blockers c.packet c.direction).map Subscription.key).Nodup := by
    have hwanting : ((b.registry.subscriptions.filter (·.wants c.packet c.direction)).map
        Subscription.key).Nodup := hkeys.sublist (List.filter_sublist.map _)
    have hsorted := ((List.mergeSort_perm (b.registry.subscriptions.filter
      (·.wants c.packet c.direction)) Subscription.outranks).map Subscription.key).nodup_iff.mpr
      hwanting
    exact hsorted.sublist (List.filter_sublist.map _)
  have hpassed : ∀ d ∈ directives (q.filter (·.concerns c.id)), d = .pass := by
    intro d hd
    obtain ⟨n, hn, hd⟩ := List.mem_filterMap.mp hd
    obtain ⟨hn, hconcerns⟩ := List.mem_filter.mp hn
    cases n with
    | directed c' cause d' =>
        cases hd
        exact hpass c' cause d hn (by simpa [Note.concerns, Note.chain?] using hconcerns)
    | _ => cases hd
  rw [visits_eq_thread, hthread]
  rw [hthread] at hlegal
  obtain ⟨l, hl⟩ := Option.isSome_iff_exists.mp (List.getLast?_isSome.mpr
    (List.cons_ne_nil (Note.started c) (q.filter (·.concerns c.id))))
  obtain ⟨rest, hrest, hended⟩ :=
    hlegal.walk h.filed hheeds hfresh hline hpassed hl
  refine ⟨⟨rest, hrest.symm⟩, fun c' outcome hmem hid => ?_⟩
  have hlast := hlegal.getLast?_of_ended (List.mem_cons_of_mem _ (List.mem_filter.mpr
    ⟨hmem, by simp [Note.concerns, Note.chain?, hid]⟩))
  rw [hl] at hlast
  obtain ⟨hnone, houtcome⟩ := hended c' outcome (Option.some.inj hlast)
  rw [hnone, List.append_nil] at hrest
  exact ⟨hrest.symm, houtcome⟩

/-! ## whether anybody is asked -/

theorem blockers_eq_nil_iff {r : Registry} {packet : Packet} {direction : Direction} :
    r.blockers packet direction = [] ↔
      ∀ s ∈ r.subscriptions, s.interest.isBlocking = true → s.wants packet direction = false := by
  rw [List.eq_nil_iff_forall_not_mem]
  constructor
  · intro h s hs hblock
    exact Bool.eq_false_iff.mpr fun hwants => h s (Registry.mem_blockers.mpr ⟨hs, hwants, hblock⟩)
  · intro h s hs
    obtain ⟨hmem, hwants, hblock⟩ := Registry.mem_blockers.mp hs
    rw [h s hmem hblock] at hwants
    cases hwants

/-- A packet goes as it came if nobody in line blocks; else it starts a chain. -/
theorem submit_cases (hr : b.registry.Filed) {bytes : Bytes} {packet : Packet}
    (hp : Packet.decode b.settings.decodeMode bytes = .ok packet) (direction : Direction)
    (flags : UInt32) :
    (b.registry.blockers packet direction = [] ∧
      (b.submit bytes direction flags).1 = .ok .passthrough ∧
      (b.submit bytes direction flags).2.chains = b.chains) ∨
    (b.registry.blockers packet direction ≠ [] ∧ ∃ id,
      (b.submit bytes direction flags).1 = .ok (.chain id) ∧
      .started { id, bytes, packet, direction, flags } ∈
        b.notes (.submit bytes direction flags)) := by
  have hblockers := Registry.map_filter_matching hr packet direction
  have hmapped : (b.candidates packet direction).map Client.subscription =
      b.registry.blockers packet direction := hblockers
  rw [notes, submit_eq hp, submitNotes_eq hp]
  by_cases hnone : b.candidates packet direction = []
  · rw [if_pos hnone]
    rw [hnone] at hmapped
    exact .inl ⟨hmapped.symm, rfl, (told_copied _ _ _ _ _).chains⟩
  · rw [if_neg hnone, if_neg hnone]
    refine .inr ⟨?_, _, rfl, List.mem_append_right _ List.mem_cons_self⟩
    rw [← hmapped]
    simpa using hnone

/-- A chain never ends as if nobody had been asked. -/
theorem Run.poll_ne_passthrough (h : Run settings J b) (id : UInt64) :
    (b.poll id).1 ≠ some (.ok .passthrough) := by
  intro hpoll
  have hjudged := h.step (.expire id)
  have hmem : (id, Outcome.passthrough) ∈ (b.expire id).outcomes := by
    cases b.looked id with
    | found hkept hresult =>
        rw [hresult] at hpoll
        cases hpoll
        obtain ⟨before, after, hout, _⟩ := List.lookup_eq_some_iff.mp hkept
        rw [hout]
        exact List.mem_append_right _ List.mem_cons_self
    | waits _ _ hresult | lost _ _ hresult =>
        rw [hresult] at hpoll
        cases hpoll
  obtain ⟨c, hended, _⟩ := hjudged.accounted.outcomes _ hmem
  obtain ⟨p, q, hsplit⟩ := List.append_of_mem hended
  have hadmitted := hjudged.counted.lawful p (.ended c .passthrough) ⟨q, by rw [hsplit]; simp⟩
  obtain hforward | hcancelled := hadmitted.2.2
  · cases hforward
  · cases hcancelled

theorem Run.await_ne_passthrough (h : Run settings J b) (id : UInt64) :
    (Caller.await b id).1 ≠ .done (.ok .passthrough) := by
  intro hdone
  have hpoll := h.poll_ne_passthrough id
  unfold Caller.await at hdone
  cases hp : b.poll id with
  | mk result b' =>
      rw [hp] at hpoll hdone
      cases result with
      | none => cases hdone
      | some result =>
          cases hdone
          exact hpoll rfl

/-- What a caller is told when it hands in a packet that decodes. -/
theorem Run.run_ready (h : Run settings J b) {bytes : Bytes} {packet : Packet}
    (hp : Packet.decode settings.decodeMode bytes = .ok packet) (direction : Direction)
    (flags : UInt32) :
    (b.registry.blockers packet direction = [] ∧
      ((Caller.ready bytes direction flags).run b).1 = .done (.ok .passthrough) ∧
      ((Caller.ready bytes direction flags).run b).2.chains = b.chains) ∨
    (b.registry.blockers packet direction ≠ [] ∧
      ((Caller.ready bytes direction flags).run b).1 ≠ .done (.ok .passthrough) ∧
      ∃ id, .started { id, bytes, packet, direction, flags } ∈
        b.notes (.submit bytes direction flags)) := by
  have hnext : Run settings _ (b.submit bytes direction flags).2 :=
    h.step (.submit bytes direction flags)
  rw [← h.settings_eq] at hp
  obtain ⟨hnone, hanswer, hchains⟩ | ⟨hsome, id, hanswer, hstarted⟩ :=
    submit_cases h.filed hp direction flags
  · have hrun : (Caller.ready bytes direction flags).run b =
        (.done (.ok .passthrough), (b.submit bytes direction flags).2) := by
      have hs : b.submit bytes direction flags = (.ok .passthrough, _) := Prod.ext hanswer rfl
      rw [Caller.run, hs]
    rw [hrun]
    exact .inl ⟨hnone, rfl, hchains⟩
  · have hrun : (Caller.ready bytes direction flags).run b =
        Caller.await (b.submit bytes direction flags).2 id := by
      have hs : b.submit bytes direction flags = (.ok (.chain id), _) := Prod.ext hanswer rfl
      rw [Caller.run, hs]
    rw [hrun]
    exact .inr ⟨hsome, hnext.await_ne_passthrough id, id, hstarted⟩

/-! ## over every run -/

/-- The chain behind a note remembers everybody whom it has been handed to. -/
theorem Run.visited_eq (h : Run settings J b) {p : List Note} {n : Note} {x : Chain}
    (hp : p ++ [n] <+: J) (hx : n.after? settings.decodeMode = some x) :
    x.visited = (visits x.id (p ++ [n])).map Client.key := by
  obtain ⟨c, hc⟩ : ∃ c, n.chain? = some c := by
    cases n with
    | started c | directed c | handed c | ended c | dropped c => exact ⟨c, rfl⟩
    | happened | copied | redeemed | injected => cases hx
  have hlast : (thread c.id (p ++ [n])).getLast? = some n := getLast?_thread_concat hc
  obtain ⟨c₀, T, ht, hlegal, hfresh⟩ := h.thread_begins hp hlast
  rw [ht] at hlast
  rw [Note.after?_id hc hx, visits_eq_thread, ht]
  exact hlegal.visited_eq hfresh.unseen hlast x hx

/-- **A chain goes to the first in line.**  In every state, a packet goes as it came exactly if
nobody registered has to be asked about it; else it starts a chain.  From its start and after every
directive that goes on, a chain is handed to the first, by priority and then by order of
registration, of those registered who have to be asked about the packet as it now is and have not
been asked, and it ends exactly if there is none.  In particular, while the registry stays and
everybody passes, it goes to all of them, once each and in that order. -/
theorem Run.served_in_line (h : Run settings J b) :
    (∀ bytes direction flags packet, Packet.decode settings.decodeMode bytes = .ok packet →
      (((Caller.ready bytes direction flags).run b).1 = .done (.ok .passthrough) ↔
        ∀ s ∈ b.registry.subscriptions, s.interest.isBlocking = true →
          s.wants packet direction = false) ∧
      (((Caller.ready bytes direction flags).run b).1 = .done (.ok .passthrough) →
        ((Caller.ready bytes direction flags).run b).2.chains = b.chains) ∧
      (((Caller.ready bytes direction flags).run b).1 ≠ .done (.ok .passthrough) →
        ∃ id, .started { id, bytes, packet, direction, flags } ∈
          b.notes (.submit bytes direction flags))) ∧
    (∀ id, ((Caller.waiting id).run b).1 ≠ .done (.ok .passthrough)) ∧
    (∀ (e : Event) (N M : List Note) (n : Note) (x : Chain), b.notes e = N ++ n :: M →
      n.goesOn = true → n.after? settings.decodeMode = some x →
      x.visited = (visits x.id (J ++ .happened e :: N ++ [n])).map Client.key ∧
      match (b.step e).registry.successor? x with
      | some s => ∃ client sent M', client.subscription = s ∧
          M = .handed (x.visit client) client sent :: M'
      | none => ∃ M', M = .ended x.leave (.forward x.leave.outgoing) :: M') ∧
    (∀ N b', Steady b N b' → ∀ (p q : List Note) (c : Chain), N = p ++ .started c :: q →
      (∀ c', .started c' ∈ q → c'.id ≠ c.id) →
      (b.registry.subscriptions.map Subscription.key).Nodup →
      (∀ c' cause d, .directed c' cause d ∈ q → c'.id = c.id → d = .pass) →
      (visits c.id (J ++ N)).map Client.subscription <+:
        b.registry.blockers c.packet c.direction ∧
      ∀ c' outcome, .ended c' outcome ∈ q → c'.id = c.id →
        (visits c.id (J ++ N)).map Client.subscription =
          b.registry.blockers c.packet c.direction ∧ outcome = .forward c'.outgoing) := by
  refine ⟨fun bytes direction flags packet hp => ?_, fun id => h.await_ne_passthrough id,
    fun e N M n x hsplit hgoes hx => ⟨?_, ?_⟩,
    fun N b' hN p q c hsplit honce hkeys hpass => hN.walk h hsplit honce hkeys hpass⟩
  · rw [← blockers_eq_nil_iff]
    obtain ⟨hnone, hanswer, hchains⟩ | ⟨hsome, hanswer, hstarted⟩ := h.run_ready hp direction flags
    · exact ⟨⟨fun _ => hnone, fun _ => hanswer⟩, fun _ => hchains, fun hne => absurd hanswer hne⟩
    · exact ⟨⟨fun hpass => absurd hpass hanswer, fun hnone => absurd hnone hsome⟩,
        fun hpass => absurd hpass hanswer, fun _ => hstarted⟩
  · refine (h.step e).visited_eq ⟨M, ?_⟩ hx
    rw [hsplit]
    simp
  · have hheeds := (orderly_notes b e).heeds
    rw [hsplit, h.settings_eq] at hheeds
    exact hheeds.goOn (h.step e).filed hgoes hx

/-- The second of three that have registered is the most urgent, and everybody passes. -/
theorem served_in_line_by_priority :
    ∃ J b N b' p q c c' outcome, Run {} J b ∧ Steady b N b' ∧ N = p ++ .started c :: q ∧
    .ended c' outcome ∈ q ∧
    (visits c.id (J ++ N)).map (·.ext) = ["second", "first", "third"] ∧
    (visits c.id (J ++ N)).map Client.subscription = b.registry.blockers c.packet c.direction ∧
    outcome = .forward c'.outgoing := by
  let text : Interest := { id := 1, kind := .net .genericText }
  let urgent : Interest := { text with priority := 1 }
  let run : List Event :=
    [.register "first" [text] 4, .register "second" [urgent] 4, .register "third" [text] 4]
  let c : Chain := {
    id := 1, bytes := [2, 0, 0, 0, 0], direction := .clientToServer, flags := 0
    packet := ⟨.genericText, .table { rows := [], index := [], trailingNewline := false }⟩ }
  let first : Client := ⟨"first", text, 1, 1⟩
  let second : Client := ⟨"second", urgent, 2, 2⟩
  let third : Client := ⟨"third", text, 3, 3⟩
  let c₁ := c.visit second
  let c₂ := c₁.hit.visit first
  let c₃ := c₂.hit.visit third
  let answer (ext : String) : Event := .respond ext ⟨1, 1, .pass⟩
  have h : Run {} _ (run.foldl Broker.step (.new {})) := Run.new.foldl run
  have hN := ((((Steady.refl (b := run.foldl Broker.step (.new {}))).step
    (.submit c.bytes c.direction c.flags) (registry_submit _ _ _ _)).step
    (answer "second") (registry_respond _ _ _)).step
    (answer "first") (registry_respond _ _ _)).step
    (answer "third") (registry_respond _ _ _)
  let q : List Note := [.handed c₁ second true, .happened (answer "second"),
    .directed c₁ (.answer "second" 1) .pass, .handed c₂ first true, .happened (answer "first"),
    .directed c₂ (.answer "first" 1) .pass, .handed c₃ third true, .happened (answer "third"),
    .directed c₃ (.answer "third" 1) .pass, .ended c₃.hit.leave (.forward c₃.hit.leave.outgoing)]
  have hsubscriptions : (run.foldl Broker.step (.new {})).registry.subscriptions =
      [⟨"first", 1, text⟩, ⟨"second", 2, urgent⟩, ⟨"third", 3, text⟩] := by cbv
  have hpass : ∀ c' cause d, .directed c' cause d ∈ q → c'.id = c.id → d = .pass := by
    intro c' cause d hmem _
    have hd : d ∈ directives q := List.mem_filterMap.mpr ⟨_, hmem, rfl⟩
    have hq : directives q = [.pass, .pass, .pass] := rfl
    rw [hq] at hd
    simpa using hd
  obtain ⟨_, _, _, hwalk⟩ := h.served_in_line
  obtain ⟨_, hended⟩ := hwalk _ _ hN [.happened (.submit c.bytes c.direction c.flags)] q c (by cbv)
    (by simp [q]) (by rw [hsubscriptions]; decide) hpass
  have hlast : .ended c₃.hit.leave (.forward c₃.hit.leave.outgoing) ∈ q := by simp [q]
  obtain ⟨hall, houtcome⟩ := hended _ _ hlast rfl
  refine ⟨_, _, _, _, [.happened (.submit c.bytes c.direction c.flags)], q, c, _, _, h, hN, ?_,
    hlast, ?_, hall, houtcome⟩
  · cbv
  · cbv

end Broker

end Intercept
