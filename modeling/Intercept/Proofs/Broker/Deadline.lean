import Mathlib.Data.List.DropRight
import Intercept.Proofs.Broker.Answer
import Intercept.Proofs.Broker.Completion

/-!
# Intercept.Proofs.Broker.Deadline

When a hop is too late, and what housekeeping leaves behind.

```
clock J          the milliseconds that pass in the journal J
hopStart id J    what the clock showed when the chain id was last handed to somebody
Timed S J b      the broker b keeps both, and each timeout in J was due
```

Only the events of the journal make the clock go, whatever the broker notes
down for itself, so that `clock s` for a stretch `s` of a journal is the time
that passes in it.  Who finds a hop overdue, its caller, its timer or
housekeeping, makes no difference: the directive restarts the clock or ends the
chain, and the next one who looks finds it in time.
-/

namespace Intercept

/-! ## time -/

/-- The milliseconds that pass with a note. -/
def Note.elapsed : Note → Nat
  | happened (.later ms) => ms
  | _ => 0

/-- The milliseconds that pass in a journal. -/
def clock (J : List Note) : Nat := (J.map Note.elapsed).sum

@[simp] theorem clock_nil : clock [] = 0 := rfl

@[simp] theorem clock_append (J N : List Note) : clock (J ++ N) = clock J + clock N := by
  rw [clock, List.map_append, List.sum_append]
  rfl

@[simp] theorem clock_cons (n : Note) (N : List Note) : clock (n :: N) = n.elapsed + clock N := by
  rw [clock, List.map_cons, List.sum_cons]
  rfl

/-- No time passes within an event. -/
theorem clock_of_alone {N : List Note} (h : ∀ e, .happened e ∉ N) : clock N = 0 := by
  refine List.sum_eq_zero fun ms hms => ?_
  obtain ⟨n, hn, rfl⟩ := List.mem_map.mp hms
  cases n with
  | happened e => exact absurd hn (h e)
  | _ => rfl

/-- Whether a hop begins with the note. -/
def Note.begins : Note → Bool
  | started _ | handed _ _ true => true
  | _ => false

/-- Whether the hop of this chain begins with the note. -/
def Note.resets (id : UInt64) (n : Note) : Bool := n.concerns id && n.begins

/-- What the clock showed when the hop of the chain began. -/
def hopStart (id : UInt64) (J : List Note) : Nat := clock (J.rdropWhile fun n => !n.resets id)

/-- A hop begins with the last note that begins one. -/
theorem hopStart_concat (id : UInt64) (J : List Note) (n : Note) : hopStart id (J ++ [n]) =
    if n.resets id then clock (J ++ [n]) else hopStart id J := by
  rw [hopStart, List.rdropWhile_concat]
  cases n.resets id with
  | true => rfl
  | false => rfl

/-- Notes about other chains do not begin a hop. -/
theorem hopStart_append_silent {id : UInt64} (J : List Note) {N : List Note}
    (h : ∀ n ∈ N, n.concerns id = false) : hopStart id (J ++ N) = hopStart id J := by
  induction N using List.reverseRecOn with
  | nil => rw [List.append_nil]
  | append_singleton N n ih =>
      have hn : n.resets id = false := by
        rw [Note.resets, h n (List.mem_append_right N List.mem_cons_self), Bool.false_and]
      rw [← List.append_assoc, hopStart_concat, hn]
      exact ih fun m hm => h m (List.mem_append_left _ hm)

/-- The hop of a chain begins when it is handed over. -/
theorem hopStart_handed (J : List Note) (c : Chain) (client : Client) {N : List Note}
    (h : ∀ n ∈ N, n.concerns c.id = false) :
    hopStart c.id (J ++ .handed c client true :: N) = clock J := by
  rw [List.append_cons, hopStart_append_silent _ h, hopStart_concat]
  simp [Note.resets, Note.begins, Note.concerns, Note.chain?, Note.elapsed]

/-- The chain that a note drops. -/
def Note.dropped? : Note → Option Chain
  | dropped c => some c
  | _ => none

/-- A timeout is told when the hop has lasted for long enough. -/
def AdmitsTimeout (timeout : Nat) (J : List Note) : Note → Prop
  | .directed c .timeout _ => timeout ≤ clock J - hopStart c.id J
  | _ => True

/-- A note about no chain is no timeout. -/
theorem admitsTimeout_of_chain? {timeout : Nat} (J : List Note) {n : Note} (h : n.chain? = none) :
    AdmitsTimeout timeout J n := by
  cases n with
  | directed => cases h
  | _ => trivial

namespace Broker

variable {settings : BrokerSettings} {J N : List Note} {b b' : Broker} {id : UInt64}

/-! ## the broker keeps the time -/

/-- The broker's clock is that of the journal, it knows when each hop began, and every timeout was
due. -/
structure Timed (settings : BrokerSettings) (J : List Note) (b : Broker) : Prop where
  same : b.settings = settings
  now : b.now = clock J
  hops : ∀ id h, (b.standing id).hop = some h → h.since = hopStart id J
  lawful : Lawful (AdmitsTimeout settings.chainTimeout) J

/-- What is told during a turn restarts the hops that it should. -/
theorem since_through {s : Standing} {now : Nat}
    (hs : ∀ h, s.hop = some h → h.since = hopStart id J)
    (hnow : now = clock J) (hN : ∀ e, .happened e ∉ N) :
    ∀ h, (s.through id now N).hop = some h → h.since = hopStart id (J ++ N) := by
  induction N using List.reverseRecOn with
  | nil =>
      rw [List.append_nil]
      exact hs
  | append_singleton N n ih =>
      have ih := ih fun e he => hN e (List.mem_append_left _ he)
      have hclock : clock (J ++ (N ++ [n])) = now := by
        rw [clock_append, clock_of_alone hN, hnow]
        rfl
      intro h hh
      rw [Standing.through_concat] at hh
      rw [← List.append_assoc, hopStart_concat, List.append_assoc, hclock]
      cases hn : n.concerns id with
      | false =>
          rw [hn] at hh
          rw [Note.resets, hn]
          exact ih h hh
      | true =>
          rw [hn, if_pos rfl] at hh
          rw [Note.resets, hn, Bool.true_and]
          cases n with
          | happened | copied | redeemed | injected => cases hn
          | directed => exact ih h hh
          | started => cases hh; rfl
          | ended => cases hh
          | dropped => cases hh
          | handed c client sent =>
              cases sent with
              | false => exact ih h hh
              | true =>
                  obtain ⟨g, _, rfl⟩ := Option.map_eq_some_iff.mp hh
                  rfl

/-- A turn keeps the time: it takes none, and each timeout that it tells was due. -/
theorem Timed.turn (h : Timed settings J b) (ht : Turn b N b') : Timed settings (J ++ N) b' := by
  constructor
  · exact ht.settings.trans h.same
  · rw [ht.now, h.now, clock_append, clock_of_alone ht.alone]
    rfl
  · intro id
    rw [ht.standing]
    exact since_through (h.hops id) h.now ht.alone
  · refine lawful_append.mpr ⟨h.lawful, fun p n hp => ?_⟩
    have halone : ∀ e, .happened e ∉ p := fun e he =>
      ht.alone e (hp.subset (List.mem_append_left _ he))
    cases n with
    | directed c cause d =>
        cases cause with
        | timeout =>
            obtain ⟨hop, hhop, hlate⟩ := ht.lawful p _ hp c rfl
            show settings.chainTimeout ≤ clock (J ++ p) - hopStart c.id (J ++ p)
            rw [clock_append, clock_of_alone halone, ← h.now,
              ← since_through (h.hops c.id) h.now halone hop hhop, ← h.same]
            exact hlate
        | answer | disconnect => trivial
    | _ => trivial

/-- Nothing is told of any chain, though time may pass and callers may go away. -/
theorem Timed.silent (h : Timed settings J b) (hN : ∀ n ∈ N, n.chain? = none)
    (hsettings : b'.settings = b.settings) (hnow : b'.now = b.now + clock N)
    (hhops : ∀ id, (b'.standing id).hop.map Hop.since = (b.standing id).hop.map Hop.since) :
    Timed settings (J ++ N) b' := by
  constructor
  · exact hsettings.trans h.same
  · rw [hnow, h.now, clock_append]
  · intro id hop hhop
    have hsame := hhops id
    rw [hhop] at hsame
    obtain ⟨g, hg, hsince⟩ := Option.map_eq_some_iff.mp hsame.symm
    rw [hopStart_append_silent J fun n hn => by simp [Note.concerns, hN n hn], ← h.hops id g hg,
      hsince]
  · exact h.lawful.append fun p n hn => admitsTimeout_of_chain? p (hN n hn)

/-- What is not told of keeps the time as long as it leaves the hops alone. -/
theorem Timed.still (h : Timed settings J b) (hsettings : b'.settings = b.settings)
    (hnow : b'.now = b.now)
    (hhops : ∀ id, (b'.standing id).hop.map Hop.since = (b.standing id).hop.map Hop.since) :
    Timed settings J b' := by
  have hsilent := h.silent (N := []) (by simp) hsettings hnow hhops
  rwa [List.append_nil] at hsilent

/-- A caller that goes away restarts no hop. -/
theorem since_abandon (b : Broker) (id i : UInt64) :
    ((b.abandon id).standing i).hop.map Hop.since = (b.standing i).hop.map Hop.since := by
  by_cases hi : i = id
  · subst hi
    rw [standing_abandon_self]
    cases (b.standing i).hop with
    | none => rfl
    | some hop => rfl
  · rw [standing_abandon_of_ne hi]

/-- **The broker keeps the time**, over every run. -/
theorem Run.timed (h : Run settings J b) : Timed settings J b := by
  induction h with
  | new =>
      refine ⟨rfl, rfl, fun id hop hhop => ?_, lawful_nil _⟩
      cases hhop
  | @step J b e h ih =>
      have hhappened : ∀ e : Event, Note.elapsed (.happened e) = 0 →
          Timed settings (J ++ [.happened e]) b := by
        intro e he
        exact ih.silent (by simp [Note.chain?]) rfl (by simp [he]) fun _ => rfl
      rw [List.append_cons]
      cases e with
      | later ms =>
          rw [notes, List.append_nil]
          exact ih.silent (by simp [Note.chain?]) rfl rfl fun _ => rfl
      | abandon id =>
          have hkept := carried_abandon b id
          rw [notes, List.append_nil]
          exact (hhappened _ rfl).still hkept.settings hkept.now (since_abandon b id)
      | poll id =>
          have hjudged := (hhappened (.poll id) rfl).turn (turn_expire b id)
          have hpoll : b.step (.poll id) = b.expire id ∨
              b.step (.poll id) = (b.expire id).dropOutcome id := snd_poll b id
          obtain hpoll | hpoll := hpoll
          · rw [hpoll]
            exact hjudged
          · rw [hpoll]
            exact hjudged.still rfl rfl fun _ => rfl
      | _ => exact (hhappened _ rfl).turn (turn_step h.distinct trivial)
  | @reordered J b chains h hp ih =>
      exact ih.still rfl rfl fun id => by rw [standing_eq (chain?_of_perm h.distinct hp) rfl]

/-! ## the hop of a chain -/

/-- How long a hop has lasted is the time since its hand-over. -/
theorem Run.exists_handed (h : Run settings J b) {a : ActiveChain} (ha : a ∈ b.chains) :
    ∃ p client q, J = p ++ .handed a.chain client true :: q ∧
      (∀ n ∈ q, n.concerns a.chain.id = false) ∧ b.now - a.hopStarted = clock q := by
  have hchain := chain?_of_mem h.distinct ha
  obtain ⟨client, hlast, _⟩ := h.holder_of_chain hchain
  obtain ⟨p, q, rfl, hq⟩ := exists_append_of_getLast?_thread hlast
  have hhop : (b.standing a.chain.id).hop = some ⟨a.awaited, a.hopStarted⟩ := by
    rw [standing_of_some hchain]
  have hsince : a.hopStarted = clock p := by
    rw [← hopStart_handed p a.chain client hq]
    exact h.timed.hops _ _ hhop
  refine ⟨p, client, q, rfl, hq, ?_⟩
  rw [h.timed.now, hsince]
  simp [Note.elapsed]

/-- A timeout answers the hand-over in front of it, for which there has been time. -/
theorem Run.timeout_due (h : Run settings J b) {p : List Note} {c : Chain} {d : Directive}
    (hp : p ++ [.directed c .timeout d] <+: J) :
    ∃ q client s, p = q ++ .handed c client true :: s ∧ (∀ n ∈ s, n.concerns c.id = false) ∧
      d = settings.onTimeout.directive ∧ settings.chainTimeout ≤ clock s := by
  obtain ⟨_, _, l, ht, _, _, hl, hfollows⟩ := h.follows_of_note hp rfl rfl
  rw [← ht] at hl
  obtain ⟨q, s, rfl, hs⟩ := exists_append_of_getLast?_thread hl
  cases hfollows with
  | @directed _ client sent _ _ _ hfits =>
      obtain ⟨rfl, hd⟩ := hfits
      refine ⟨q, client, s, rfl, hs, hd, ?_⟩
      have hdue : settings.chainTimeout ≤ clock (q ++ .handed c client true :: s) -
          hopStart c.id (q ++ .handed c client true :: s) := h.timed.lawful _ _ hp
      rw [hopStart_handed q c client hs] at hdue
      simpa [Note.elapsed] using hdue

/-! ## what is judged is in time -/

/-- A hop that has begun now, or has not lasted for too long. -/
def Young (b : Broker) (a : ActiveChain) : Prop := b.now - a.hopStarted < b.settings.chainTimeout

/-- A chain that is left in the table by `drive` begins its hop now. -/
theorem hopStarted_drive {a x : ActiveChain} {step : Step}
    (hx : (b.drive a step).chain? a.chain.id = some x) : x.hopStarted = b.now := by
  have hrule : (∃ (c : ActiveChain) (_ : Client), True ∧ c.chain.id = a.chain.id ∧
      (b.drive a step).chains = (b.setChain { c with hopStarted := b.now }).chains) ∨
        (b.drive a step).chains = (b.dropChain a.chain.id).chains :=
    drive_rule (P := fun _ _ => True) (fun _ _ _ => trivial) trivial
  obtain ⟨c, _, _, hid, hchains⟩ | hchains := hrule
  · have hset := chain?_setChain_self b { c with hopStarted := b.now }
    dsimp only at hset
    rw [chain?, hchains, ← hid] at hx
    rw [chain?, hx] at hset
    obtain ⟨_, _, rfl⟩ := Option.map_eq_some_iff.mp hset.symm
    rfl
  · have hgone := chain?_dropChain_self b a.chain.id
    rw [chain?] at hgone
    rw [chain?, hchains, hgone] at hx
    cases hx

theorem hopStarted_apply {x : ActiveChain} {d : Directive}
    (hx : (b.apply id d).chain? id = some x) : x.hopStarted = b.now := by
  unfold apply at hx
  cases ha : b.chain? id with
  | none =>
      simp only [ha] at hx
      cases hx
  | some a =>
      obtain ⟨_, rfl⟩ := chain?_eq_some ha
      simp only [ha] at hx
      rw [← Chain.advance_id a.chain b.registry b.settings.decodeMode d] at hx
      exact hopStarted_drive hx

/-- A hop that has been judged is not too old. -/
theorem young_expire (htimeout : 0 < b.settings.chainTimeout) {x : ActiveChain}
    (hx : (b.expire id).chain? id = some x) : b.Young x := by
  cases b.judged id with
  | timely hyoung hstate =>
      rw [hstate] at hx
      exact hyoung x hx
  | late _ _ hstate =>
      rw [hstate] at hx
      have hstarted : x.hopStarted = (b.count .hopTimeouts []).now := hopStarted_apply hx
      have hage : b.now - x.hopStarted = 0 := by
        rw [hstarted]
        exact Nat.sub_self b.now
      rw [Young, hage]
      exact htimeout

/-- Judging one hop leaves the others as they are. -/
theorem chain?_expire_of_ne {i : UInt64} (h : i ≠ id) : (b.expire id).chain? i = b.chain? i := by
  cases b.judged id with
  | timely _ hstate => rw [hstate]
  | late _ _ hstate =>
      rw [hstate]
      exact chain?_apply_of_ne (b := b.count .hopTimeouts []) h

/-- Once every hop has been judged, none is too old. -/
theorem young_foldl_expire (htimeout : 0 < b.settings.chainTimeout) {ids : List UInt64}
    (hb : ∀ id a, b.chain? id = some a → id ∈ ids ∨ b.Young a) {x : ActiveChain}
    (hx : (ids.foldl expire b).chain? id = some x) : b.Young x := by
  induction ids generalizing b with
  | nil => exact (hb id x hx).resolve_left List.not_mem_nil
  | cons i ids ih =>
      have hc := carried_expire b i
      have hsame : ∀ a, (b.expire i).Young a ↔ b.Young a := by
        intro a
        rw [Young, Young, hc.now, hc.settings]
      rw [← hsame]
      refine ih (by rw [hc.settings]; exact htimeout) (fun id a ha => ?_) hx
      rw [hsame]
      by_cases hid : id = i
      · subst hid
        exact .inr (young_expire htimeout ha)
      · rw [chain?_expire_of_ne hid] at ha
        exact (hb id a ha).imp_left fun hmem => (List.mem_cons.mp hmem).resolve_left hid

/-! ## what nobody awaits is dropped -/

/-- Dropping chains takes those, and no others, from the table. -/
theorem chains_foldl_dropAbandoned (b : Broker) (ids : List UInt64) :
    (ids.foldl dropAbandoned b).chains = b.chains.filter (·.chain.id ∉ ids) := by
  induction ids generalizing b with
  | nil => simp
  | cons id ids ih =>
      rw [List.foldl_cons, ih, dropAbandoned, count, dropChain, List.filter_filter]
      congr 1
      funext a
      by_cases hid : a.chain.id = id
      · simp [hid]
      · simp [hid]

/-- Housekeeping leaves the chains that somebody awaits. -/
theorem chains_prune (hb : b.Distinct) : b.prune.chains = b.chains.filter (·.awaited) := by
  rw [prune, chains_foldl_dropAbandoned]
  refine List.filter_congr fun a ha => ?_
  have hmem : a.chain.id ∈ b.abandoned ↔ a.awaited = false := by
    constructor
    · intro hin
      obtain ⟨x, hx, hid⟩ := List.mem_map.mp hin
      obtain ⟨hx, hgone⟩ := List.mem_filter.mp hx
      rw [← List.inj_on_of_nodup_map hb hx ha hid]
      simpa using hgone
    · intro hgone
      exact List.mem_map_of_mem (List.mem_filter.mpr ⟨ha, by simpa using hgone⟩)
  simp [hmem]

/-- Chains that are dropped are told of one by one. -/
theorem foldNotes_dropAbandoned {L : List ActiveChain} (hL : (L.map (·.chain.id)).Nodup)
    (hb : ∀ a ∈ L, b.chain? a.chain.id = some a) :
    foldNotes dropAbandoned dropAbandonedNotes b (L.map (·.chain.id)) =
      L.map fun a => .dropped a.chain := by
  induction L generalizing b with
  | nil => rfl
  | cons a L ih =>
      obtain ⟨hnot, hrest⟩ := List.nodup_cons.mp hL
      have hlater : ∀ x ∈ L, (b.dropAbandoned a.chain.id).chain? x.chain.id = some x := by
        intro x hx
        have hne : x.chain.id ≠ a.chain.id := by
          intro he
          have hmem : x.chain.id ∈ L.map (·.chain.id) := List.mem_map_of_mem hx
          rw [he] at hmem
          exact hnot hmem
        exact (chain?_dropChain_of_ne hne).trans (hb x (List.mem_cons_of_mem a hx))
      rw [List.map_cons, foldNotes, ih hrest hlater, dropAbandonedNotes, hb a List.mem_cons_self]
      rfl

/-- Housekeeping tells of the chains that nobody awaits, and of nothing else. -/
theorem pruneNotes_eq (hb : b.Distinct) :
    b.pruneNotes = (b.chains.filter (!·.awaited)).map fun a => .dropped a.chain :=
  foldNotes_dropAbandoned (hb.sublist (List.filter_sublist.map _)) fun _ ha =>
    chain?_of_mem (b := b) hb (List.mem_filter.mp ha).1

/-- A chain that somebody awaits stays awaited as long as it stands. -/
theorem awaited_through {s : Standing} {now : Nat} (hs : ∀ h, s.hop = some h → h.awaited = true)
    (N : List Note) : ∀ h, (s.through id now N).hop = some h → h.awaited = true := by
  induction N using List.reverseRecOn with
  | nil => exact hs
  | append_singleton N n ih =>
      intro h hh
      rw [Standing.through_concat] at hh
      split at hh
      · cases n with
        | happened | copied | redeemed | injected | directed => exact ih h hh
        | started => cases hh; rfl
        | ended => cases hh
        | dropped => cases hh
        | handed c client sent =>
            cases sent with
            | false => exact ih h hh
            | true =>
                obtain ⟨g, hg, rfl⟩ := Option.map_eq_some_iff.mp hh
                exact ih g hg
      · exact ih h hh

/-- While all chains are awaited, none is dropped. -/
theorem Turn.not_dropped (ht : Turn b N b')
    (hb : ∀ id h, (b.standing id).hop = some h → h.awaited = true) {c : Chain} :
    .dropped c ∉ N := by
  intro hmem
  obtain ⟨p, q, rfl⟩ := List.append_of_mem hmem
  obtain ⟨hop, hhop, hgone⟩ := ht.lawful p (.dropped c) ⟨q, by simp⟩ c rfl
  rw [awaited_through (hb c.id) p hop hhop] at hgone
  cases hgone

/-! ## a sweep -/

/-- What a sweep leaves, and what it tells. -/
structure Swept (b : Broker) : Prop where
  now : b.sweep.2.now = b.now
  /-- No hop is too old. -/
  young : ∀ a ∈ b.sweep.2.chains, b.now - a.hopStarted < b.settings.chainTimeout
  awaited : ∀ a ∈ b.sweep.2.chains, a.awaited = true
  copies : b.sweep.2.correlations =
    b.correlations.filter fun c => b.now - c.created < b.settings.observerTtl
  /-- It drops the chains that nobody awaits. -/
  dropped : (b.notes .sweep).filterMap Note.dropped? =
    (b.chains.filter (!·.awaited)).map (·.chain)
  told : b.sweep.1 =
    (b.correlations.filter fun c => b.settings.observerTtl ≤ b.now - c.created).length +
      ((b.notes .sweep).filterMap Note.dropped?).length

/-- The chains that housekeeping leaves are awaited. -/
theorem awaited_prune (hb : b.Distinct) :
    ∀ id h, (b.prune.standing id).hop = some h → h.awaited = true := by
  intro id h hh
  obtain ⟨a, ha, rfl⟩ := Option.map_eq_some_iff.mp hh
  have hmem := (chain?_eq_some ha).1
  rw [chains_prune hb] at hmem
  exact (List.mem_filter.mp hmem).2

/-- A sweep leaves nothing overdue and tells how much it has removed. -/
theorem swept (hb : b.Distinct) (htimeout : 0 < b.settings.chainTimeout) : b.Swept := by
  have hpruned : Carried b.forgetOld b.prune := carried_prune b
  have hjudged : Carried b.prune b.sweep.2 := carried_foldl carried_expire _ _
  have hnow : b.prune.now = b.now := hpruned.now
  have hsettings : b.prune.settings = b.settings := hpruned.settings
  have hturn : Turn b.prune _ b.sweep.2 := turn_foldl_expire b.prune _
  have hdistinct : b.sweep.2.Distinct := (moves_sweep [] hb).distinct hb
  have hdropped : (b.notes .sweep).filterMap Note.dropped? =
      (b.chains.filter (!·.awaited)).map (·.chain) := by
    have hnone : (foldNotes expire expireNotes b.prune (b.prune.chains.map (·.chain.id))).filterMap
        Note.dropped? = [] := by
      refine List.filterMap_eq_nil_iff.mpr fun n hn => ?_
      cases n with
      | dropped c => exact absurd hn (hturn.not_dropped (awaited_prune hb))
      | _ => rfl
    rw [notes, sweepNotes, List.filterMap_append, hnone, List.append_nil, pruneNotes_eq hb,
      List.filterMap_map]
    exact congrFun List.filterMap_eq_map' _
  constructor
  · exact hjudged.now.trans hnow
  · intro a ha
    have hyoung : b.prune.Young a := by
      refine young_foldl_expire (by rw [hsettings]; exact htimeout) (fun id x hx => ?_)
        (chain?_of_mem hdistinct ha)
      obtain ⟨hmem, rfl⟩ := chain?_eq_some hx
      exact .inl (List.mem_map_of_mem hmem)
    rwa [Young, hnow, hsettings] at hyoung
  · intro a ha
    have hhop : (b.sweep.2.standing a.chain.id).hop = some ⟨a.awaited, a.hopStarted⟩ := by
      rw [standing_of_some (chain?_of_mem hdistinct ha)]
    rw [hturn.standing] at hhop
    exact awaited_through (awaited_prune hb a.chain.id) _ _ hhop
  · exact hjudged.correlations.trans hpruned.correlations
  · exact hdropped
  · have hlength := List.length_eq_length_filter_add (l := b.correlations)
      fun c => decide (b.now - c.created < b.settings.observerTtl)
    have hold : (b.correlations.filter fun c =>
        !decide (b.now - c.created < b.settings.observerTtl)) =
        b.correlations.filter fun c => b.settings.observerTtl ≤ b.now - c.created := by
      simp [← decide_not]
    rw [hold] at hlength
    rw [hdropped, List.length_map]
    simp only [sweep, abandoned, forgetOld, List.length_map]
    omega

/-! ## over every run -/

/-- **A hop is given up when it is too late, and once.**  Over every run, a timeout answers the last
hand-over of its chain, and at least the time that one extension may hold a packet has passed since;
so between two timeouts of a chain it has been handed over, whoever finds them.  How long a hop has
lasted is the time since its hand-over, and an undisturbed sweep leaves no hop that has lasted for
that time, no chain that nobody awaits and no copy that is too old, and tells exactly how many
copies and chains it has dropped. -/
theorem Run.deadline (h : Run settings J b) :
    (∀ (p : List Note) (c : Chain) (d : Directive), p ++ [.directed c .timeout d] <+: J →
      ∃ q client s, p = q ++ .handed c client true :: s ∧ (∀ n ∈ s, n.concerns c.id = false) ∧
        d = settings.onTimeout.directive ∧ settings.chainTimeout ≤ clock s) ∧
    (∀ (p s : List Note) (c c' : Chain) (cause : Cause) (d d' : Directive),
      p ++ .directed c cause d :: s ++ [.directed c' .timeout d'] <+: J → c'.id = c.id →
      ∃ q client s', s = q ++ .handed c' client true :: s' ∧ settings.chainTimeout ≤ clock s') ∧
    (∀ a ∈ b.chains, ∃ p client q, J = p ++ .handed a.chain client true :: q ∧
      (∀ n ∈ q, n.concerns a.chain.id = false) ∧ b.now - a.hopStarted = clock q) ∧
    (0 < settings.chainTimeout → b.Swept) := by
  refine ⟨fun p c d => h.timeout_due, ?_, fun a => h.exists_handed, fun htimeout => ?_⟩
  · intro p s c c' cause d d' hp hid
    obtain ⟨q, client, s', hsplit, hs', _, hdue⟩ := h.timeout_due hp
    -- the directive concerns the chain, so it stands in front of the hand-over
    obtain ⟨r, hq, hs⟩ | ⟨r, hp, hrest⟩ := List.append_eq_append_iff.mp hsplit
    · cases r with
      | nil => cases hs
      | cons n r =>
          obtain ⟨rfl, htail⟩ := List.cons.inj hs
          exact ⟨r, client, s', htail, hdue⟩
    · cases r with
      | nil => cases hrest
      | cons n r =>
          obtain ⟨_, htail⟩ := List.cons.inj hrest
          have hmem : Note.directed c cause d ∈ s' := by
            rw [htail]
            exact List.mem_append_right r List.mem_cons_self
          have hconcerns := hs' _ hmem
          simp [Note.concerns, Note.chain?, hid] at hconcerns
  · rw [← h.settings_eq] at htimeout
    exact swept h.distinct htimeout

/-- Two extensions hold a packet for too long, one after the other.  The first one is found by
housekeeping, the second one by the caller, who has looked in vain before. -/
theorem deadline_for_each_hop :
    ∃ J b p s c c', Run {} J b ∧
    p ++ .directed c .timeout .pass :: s ++ [.directed c' .timeout .pass] <+: J ∧ c'.id = c.id ∧
    (∃ q client s', s = q ++ .handed c' client true :: s' ∧ 5000 ≤ clock s') ∧ b.Swept := by
  let text : Interest := { id := 1, kind := .net .genericText }
  let run : List Event := [
    .register "first" [text] 4, .register "second" [text] 4,
    .submit [2, 0, 0, 0, 0] .clientToServer 0,
    .later 5000, .sweep, .poll 1, .later 5000, .poll 1]
  let c₀ : Chain := {
    id := 1, bytes := [2, 0, 0, 0, 0], direction := .clientToServer, flags := 0
    packet := ⟨.genericText, .table { rows := [], index := [], trailingNewline := false }⟩ }
  let first : Client := ⟨"first", text, 1, 1⟩
  let second : Client := ⟨"second", text, 2, 2⟩
  let c : Chain := c₀.visit first
  let c' : Chain := c.hit.visit second
  have h : Run {} _ (run.foldl Broker.step (.new {})) := Run.new.foldl run
  have hp : ([.happened (.register "first" [text] 4), .happened (.register "second" [text] 4),
      .happened (.submit [2, 0, 0, 0, 0] .clientToServer 0), .started c₀, .handed c first true,
      .happened (.later 5000), .happened .sweep] : List Note) ++
      .directed c .timeout .pass :: [.handed c' second true, .happened (.poll 1),
        .happened (.later 5000), .happened (.poll 1)] ++ [.directed c' .timeout .pass] <+:
      [] ++ (Broker.new {}).journal run :=
    ⟨[.ended c'.hit.leave (.forward c'.hit.leave.outgoing)], by cbv⟩
  obtain ⟨_, htwice, _, hswept⟩ := h.deadline
  exact ⟨_, _, _, _, c, c', h, hp, rfl, htwice _ _ _ _ _ _ _ hp rfl, hswept (by decide)⟩

end Broker

end Intercept
