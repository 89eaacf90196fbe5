import Mathlib.Data.List.Nodup
import Mathlib.Logic.Relation
import Intercept.Proofs.Broker.Operation
import Intercept.Proofs.Registry.Service

/-!
# Intercept.Proofs.Broker.Move

Every event is a path of moves.

```
⟨J, b, none⟩          between two turns of the loop
⟨J, b, some (a, s)⟩   the chain a is being carried on, and s happens to it next
Move m m'             one elementary change, with its note, its counts and its guard
Run.induct            what the first moment has and every move keeps, every run has
```

One event can carry on many chains, each through many clients, but there are
few kinds of moves.  An invariant is checked against those only: `Run.induct`
has the recursion of `drive`, the loops of `release` and `sweep` and the
branches of `respond` behind it.
-/

namespace Intercept

/-- A moment within or between events. -/
structure Moment where
  journal : List Note
  broker : Broker
  /-- The chain that is being carried on, and what happens to it next. -/
  flight : Option (ActiveChain × Step) := none

/-- The events that are not the broker's own doing. -/
def Event.IsOutside : Event → Prop
  | later _ | takeFrames .. | closeLink _ | takeInjected _ | closeInjected => True
  | _ => False

/-- Where directives of this cause are counted. -/
def Cause.counter : Cause → Counter
  | answer .. => .directives
  | timeout => .hopTimeouts
  | disconnect => .disconnectFallbacks

/-- The labels under which a directive is counted: answers by their names. -/
def Cause.labels (d : Directive) : Cause → List (String × String)
  | answer .. => [("op", d.name)]
  | timeout | disconnect => []

namespace Broker

/-- Count a directive by its cause. -/
def counted (b : Broker) (d : Directive) (cause : Cause) : Broker :=
  b.count cause.counter (cause.labels d)

/-- What has to be so for a directive to be applied to a chain of the table. -/
def Allows (b : Broker) (a : ActiveChain) (d : Directive) : Cause → Prop
  | .answer ext interestId =>
    ∃ h, a.chain.holder = some h ∧ h.ext = ext ∧ h.interest.id = interestId
  | .timeout => d = b.settings.onTimeout.directive ∧ b.settings.chainTimeout ≤ b.now - a.hopStarted
  | .disconnect => d = b.settings.onDisconnect.directive

/-- A chain with a directive applied, and what happens to it next. -/
def advanced (b : Broker) (a : ActiveChain) (d : Directive) : ActiveChain × Step :=
  let next := a.chain.advance b.registry b.settings.decodeMode d
  ({ a with chain := next.2 }, next.1)

/-- One elementary change. -/
inductive Move : Moment → Moment → Prop where
  | happened {J b} (e : Event) : Move ⟨J, b, none⟩ ⟨J ++ [.happened e], b, none⟩
  | directed {J b a d cause} : b.chain? a.chain.id = some a → b.Allows a d cause →
      Move ⟨J, b, none⟩ ⟨J ++ [.directed a.chain cause d], b.counted d cause, some (b.advanced a d)⟩
  | handed {J b a client sent} : b.trySend client.ext (a.chain.frameFor client) = some sent →
      Move ⟨J, b, some (a, .dispatch client)⟩
        ⟨J ++ [.handed a.chain client true], sent.setChain { a with hopStarted := b.now }, none⟩
  /-- The frame could not be queued: the fallback takes the place of the answer. -/
  | missed {J b a client} : b.trySend client.ext (a.chain.frameFor client) = none →
      Move ⟨J, b, some (a, .dispatch client)⟩
        ⟨J ++ [.handed a.chain client false]
          ++ [.directed a.chain .disconnect b.settings.onDisconnect.directive],
          b.count .disconnectFallbacks [], some (b.advanced a b.settings.onDisconnect.directive)⟩
  | finished {J b a} : Move ⟨J, b, some (a, .finished)⟩
      ⟨J ++ [.ended a.chain (.forward a.chain.outgoing)], b.conclude a (.forward a.chain.outgoing),
        none⟩
  | cancelled {J b a} : Move ⟨J, b, some (a, .cancelled)⟩
      ⟨J ++ [.ended a.chain (.cancelled a.chain.outgoing)],
        b.conclude a (.cancelled a.chain.outgoing), none⟩
  | joined {J b ext} (interests : List Interest) (capacity : Nat) : b.registry.get? ext = none →
      Move ⟨J, b, none⟩ ⟨J, (b.enrolled ext interests capacity).countConnected 1, none⟩
  | replaced {J b ext old} (interests : List Interest) (capacity : Nat) :
      b.registry.get? ext = some old →
      Move ⟨J, b, none⟩ ⟨J, (b.enrolled ext interests capacity).forgetSession ext old.session, none⟩
  | left {J b ext old} : b.registry.get? ext = some old →
      Move ⟨J, b, none⟩
        ⟨J, (({ b with registry := b.registry.remove ext } : Broker).countConnected
            (-1)).forgetSession ext old.session,
          none⟩
  | refused {J b counter labels} : counter = .decodeErrors ∨ counter = .rejectedDirectives →
      Move ⟨J, b, none⟩ ⟨J, b.count counter labels, none⟩
  | copied {J b bytes packet direction client} (flags : UInt32) :
      Packet.decode b.settings.decodeMode bytes = .ok packet →
      client ∈ b.registry.matching packet direction → client.interest.isBlocking = false →
      Move ⟨J, b, none⟩
        ⟨J ++ b.notifyNotes bytes direction flags client, b.notify bytes direction flags client,
          none⟩
  | started {J b bytes packet} (direction : Direction) (flags : UInt32) {c : Chain}
      {next : Step × Chain} :
      Packet.decode b.settings.decodeMode bytes = .ok packet →
      c = { id := b.freshId, bytes, packet, direction, flags } →
      next = c.nextFrom ((b.registry.matching packet direction).filter (·.interest.isBlocking)) →
      Move ⟨J, b, none⟩
        ⟨J ++ [.started c], (b.drawn.addChain ⟨next.2, true, b.now, b.now⟩).count .chainsStarted [],
          some (⟨next.2, true, b.now, b.now⟩, next.1)⟩
  /-- A caller takes its outcome, or goes away after it has come. -/
  | taken {J b id} : b.chain? id = none ∨ (b.outcomes.lookup id).isSome →
      Move ⟨J, b, none⟩ ⟨J, b.dropOutcome id, none⟩
  | abandoned {J b a} : b.chain? a.chain.id = some a →
      Move ⟨J, b, none⟩ ⟨J, b.setChain { a with awaited := false }, none⟩
  | redeemed {J b c} (d : Directive) :
      b.chain? c.packetId = none → b.correlation? c.packetId = some c →
      Move ⟨J, b, none⟩ ⟨J ++ b.redeemNotes c d, (b.redeem c d).2, none⟩
  | pushed {J b bytes packet} (direction : Direction) (flags : UInt32) :
      Packet.decode b.settings.decodeMode bytes = .ok packet →
      Move ⟨J, b, none⟩
        ⟨J ++ b.enqueueNotes bytes direction flags "push",
          (b.enqueue bytes direction flags "push").2, none⟩
  | forgot {J b} : Move ⟨J, b, none⟩ ⟨J, b.forgetOld, none⟩
  | dropped {J b a} : b.chain? a.chain.id = some a → a.awaited = false →
      Move ⟨J, b, none⟩ ⟨J ++ [.dropped a.chain], b.dropAbandoned a.chain.id, none⟩
  | outside {J b e} : e.IsOutside → Move ⟨J, b, none⟩ ⟨J, b.step e, none⟩
  | reordered {J b} {chains : List ActiveChain} : chains.Perm b.chains →
      Move ⟨J, b, none⟩ ⟨J, { b with chains }, none⟩

/-- Any number of moves. -/
def Moves : Moment → Moment → Prop := Relation.ReflTransGen Move

theorem Moves.refl (m : Moment) : Moves m m := Relation.ReflTransGen.refl

theorem Move.moves {m m' : Moment} (h : Move m m') : Moves m m' := Relation.ReflTransGen.single h

theorem Moves.trans {m m' m'' : Moment} (h : Moves m m') (h' : Moves m' m'') : Moves m m'' :=
  Relation.ReflTransGen.trans h h'

/-! ## the chains of the table have different ids -/

/-- No two chains have one id. -/
def Distinct (b : Broker) : Prop := (b.chains.map (·.chain.id)).Nodup

/-- An entry of the table is the one that is found under its id. -/
theorem chain?_of_mem {b : Broker} (hb : b.Distinct) {a : ActiveChain} (h : a ∈ b.chains) :
    b.chain? a.chain.id = some a := by
  cases hc : b.chain? a.chain.id with
  | none => exact absurd rfl (chain?_eq_none hc a h)
  | some x =>
      obtain ⟨hx, hid⟩ := chain?_eq_some hc
      rw [List.inj_on_of_nodup_map hb hx h hid]

/-- A new entry for a chain leaves the ids as they are. -/
theorem ids_setChain (b : Broker) (a : ActiveChain) :
    (b.setChain a).chains.map (·.chain.id) = b.chains.map (·.chain.id) := by
  simp only [setChain, List.map_map]
  refine List.map_congr_left fun x _ => ?_
  by_cases hid : x.chain.id = a.chain.id
  · simp [hid]
  · simp [hid]

/-- Fewer chains are as distinct. -/
theorem Distinct.dropChain {b : Broker} (hb : b.Distinct) (id : UInt64) :
    (b.dropChain id).Distinct :=
  hb.sublist (List.filter_sublist.map _)

/-- So are more, as a new entry drops the old one of its id. -/
theorem Distinct.addChain {b : Broker} (hb : b.Distinct) (a : ActiveChain) :
    (b.addChain a).Distinct := by
  unfold Distinct Broker.addChain
  rw [List.map_append, List.nodup_append]
  refine ⟨hb.dropChain a.chain.id, by simp, ?_⟩
  intro x hx y hy
  simp only [List.mem_map, List.mem_filter] at hx
  obtain ⟨c, ⟨_, hne⟩, rfl⟩ := hx
  simp only [List.map_cons, List.map_nil, List.mem_singleton] at hy
  subst hy
  simpa using hne

/-- Nobody outside touches a chain. -/
theorem chains_outside {b : Broker} {e : Event} (he : e.IsOutside) :
    (b.step e).chains = b.chains := by
  cases e with
  | later | takeFrames | closeLink | takeInjected | closeInjected => rfl
  | _ => cases he

/-- No move gives a chain a second entry. -/
theorem Distinct.move {m m' : Moment} (h : Move m m') (hm : m.broker.Distinct) :
    m'.broker.Distinct := by
  cases h with
  | handed hs =>
      unfold Distinct
      rw [ids_setChain, chains_of_trySend hs]
      exact hm
  | finished =>
      unfold Distinct
      rw [chains_conclude]
      exact hm.dropChain _
  | cancelled =>
      unfold Distinct
      rw [chains_conclude]
      exact hm.dropChain _
  | copied flags _ _ _ =>
      unfold Distinct
      rw [(told_notify _ _ _ _ _).chains]
      exact hm
  | started direction flags _ _ _ => exact hm.addChain _
  | abandoned _ =>
      unfold Distinct
      rw [ids_setChain]
      exact hm
  | redeemed d _ _ =>
      unfold Distinct
      rw [(posted_redeem _ _ _).chains]
      exact hm
  | pushed direction flags _ =>
      unfold Distinct
      rw [(posted_enqueue _ _ _ _ _).chains]
      exact hm
  | dropped _ _ => exact hm.dropChain _
  | outside he =>
      unfold Distinct
      rw [chains_outside he]
      exact hm
  | reordered hp => exact (hp.map _).nodup_iff.mpr hm
  | _ => exact hm

/-! ## paths -/

/-- Carrying a chain on is a move for each client that cannot be reached, and one more. -/
theorem moves_drive (J : List Note) (b : Broker) (a : ActiveChain) (step : Step) :
    Moves ⟨J, b, some (a, step)⟩ ⟨J ++ b.driveNotes a step, b.drive a step, none⟩ := by
  induction b, a, step using drive.induct generalizing J with
  | case1 b a => rw [driveNotes, drive]; exact Move.finished.moves
  | case2 b a => rw [driveNotes, drive]; exact Move.cancelled.moves
  | case3 b a client sent hs => rw [driveNotes, drive, hs]; exact (Move.handed hs).moves
  | case4 b a client hs next ih =>
      have hmissed := (Move.missed (J := J) hs).moves
      have hrest := ih (J ++ [.handed a.chain client false] ++
        [.directed a.chain .disconnect b.settings.onDisconnect.directive])
      rw [driveNotes, drive, hs]
      simp only [List.append_assoc, List.cons_append, List.nil_append] at hmissed hrest
      exact hmissed.trans hrest

/-- A directive for a chain is its move, and then those that carry the chain on. -/
theorem moves_apply (J : List Note) {b : Broker} {a : ActiveChain} {d : Directive} (cause : Cause)
    (ha : b.chain? a.chain.id = some a) (hd : b.Allows a d cause) :
    Moves ⟨J, b, none⟩
      ⟨J ++ (b.counted d cause).applyNotes a.chain.id cause d,
        (b.counted d cause).apply a.chain.id d, none⟩ := by
  have hcounted : (b.counted d cause).chain? a.chain.id = some a := ha
  have hdirected := (Move.directed (J := J) ha hd).moves
  have hdrive :=
    moves_drive (J ++ [.directed a.chain cause d]) (b.counted d cause) (b.advanced a d).1
      (b.advanced a d).2
  rw [List.append_assoc] at hdrive
  unfold applyNotes apply
  rw [hcounted]
  exact hdirected.trans hdrive

/-- A hop that has run out is moved on; another is not moved. -/
theorem moves_expire (J : List Note) (b : Broker) (id : UInt64) :
    Moves ⟨J, b, none⟩ ⟨J ++ b.expireNotes id, b.expire id, none⟩ := by
  cases b.judged id with
  | timely _ hstate hnotes =>
      rw [hstate, hnotes, List.append_nil]
      exact Moves.refl _
  | late hc hdue hstate hnotes =>
      obtain ⟨_, rfl⟩ := chain?_eq_some hc
      rw [hstate, hnotes]
      exact moves_apply J .timeout hc ⟨rfl, hdue⟩

/-- One after another, as long as what the next one needs is there. -/
theorem moves_foldl {α : Type} {f : Broker → α → Broker} {notes : Broker → α → List Note}
    {I : Broker → List α → Prop}
    (hstep : ∀ J b x xs, I b (x :: xs) →
      Moves ⟨J, b, none⟩ ⟨J ++ notes b x, f b x, none⟩ ∧ I (f b x) xs)
    (J : List Note) {b : Broker} {xs : List α} (h : I b xs) :
    Moves ⟨J, b, none⟩ ⟨J ++ foldNotes f notes b xs, xs.foldl f b, none⟩ := by
  induction xs generalizing J b with
  | nil =>
      rw [foldNotes, List.append_nil]
      exact Moves.refl _
  | cons x xs ih =>
      obtain ⟨hfirst, hI⟩ := hstep J b x xs h
      have hrest := ih (J ++ notes b x) hI
      rw [List.append_assoc] at hrest
      exact hfirst.trans hrest

/-- Hops are judged one after another. -/
theorem moves_foldl_expire (J : List Note) (b : Broker) (ids : List UInt64) :
    Moves ⟨J, b, none⟩ ⟨J ++ foldNotes expire expireNotes b ids, ids.foldl expire b, none⟩ :=
  moves_foldl (I := fun _ _ => True) (fun J b id _ _ => ⟨moves_expire J b id, trivial⟩) J trivial

/-- The chains that a session held stand in the table until it is their turn. -/
theorem moves_release (J : List Note) {b : Broker} (hb : b.Distinct) (ext : String)
    (session : Nat) :
    Moves ⟨J, b.forgetSession ext session, none⟩
      ⟨J ++ b.releaseNotes ext session, b.release ext session, none⟩ := by
  refine moves_foldl (I := fun b ids => ids.Nodup ∧ ∀ id ∈ ids, (b.chain? id).isSome) ?_ J ⟨?_, ?_⟩
  · rintro J b id ids ⟨hall, hsome⟩
    obtain ⟨hnot, hnodup⟩ := List.nodup_cons.mp hall
    obtain ⟨a, ha⟩ := Option.isSome_iff_exists.mp (hsome id List.mem_cons_self)
    obtain ⟨_, rfl⟩ := chain?_eq_some ha
    refine ⟨moves_apply J .disconnect ha rfl, hnodup, fun i hi => ?_⟩
    have hne : i ≠ a.chain.id := fun h => hnot (h ▸ hi)
    rw [giveUp, chain?_apply_of_ne hne]
    exact hsome i (List.mem_cons_of_mem _ hi)
  · exact hb.sublist (List.filter_sublist.map _)
  · intro id hid
    obtain ⟨a, ha, rfl⟩ := List.mem_map.mp hid
    have h := chain?_of_mem hb (List.mem_filter.mp ha).1
    rw [chain?] at h
    rw [chain?, forgetSession, h]
    rfl

/-- A registration is one move, and then those of the chains of the old session. -/
theorem moves_register (J : List Note) {b : Broker} (hb : b.Distinct) (ext : String)
    (is : List Interest) (capacity : Nat) :
    Moves ⟨J, b, none⟩
      ⟨J ++ b.registerNotes ext is capacity, b.register ext is capacity, none⟩ := by
  unfold registerNotes Broker.register
  cases hold : b.registry.get? ext with
  | none =>
      rw [List.append_nil]
      exact (Move.joined is capacity hold).moves
  | some old =>
      exact (Move.replaced is capacity hold).moves.trans
        (moves_release J (b := b.enrolled ext is capacity) hb ext old.session)

theorem moves_unregister (J : List Note) {b : Broker} (hb : b.Distinct) (ext : String) :
    Moves ⟨J, b, none⟩
      ⟨J ++ b.removedNotes (b.registry.unregister? ext), b.unregister ext, none⟩ := by
  unfold Broker.unregister Registry.unregister?
  cases hold : b.registry.get? ext with
  | none =>
      simp only [Option.map_none, removedNotes, removed, List.append_nil]
      exact Moves.refl _
  | some old =>
      have hext : old.ext = ext := Registry.ext_of_get? hold
      let left : Broker :=
        ({ b with registry := b.registry.remove ext } : Broker).countConnected (-1)
      simp only [Option.map_some, removedNotes, removed, hext]
      exact (Move.left hold).moves.trans (moves_release J (b := left) hb ext old.session)

theorem moves_unregisterSession (J : List Note) {b : Broker} (hb : b.Distinct) (ext : String)
    (session : Nat) :
    Moves ⟨J, b, none⟩
      ⟨J ++ b.removedNotes (b.registry.unregisterSession? ext session),
        b.unregisterSession ext session, none⟩ := by
  unfold Broker.unregisterSession Registry.unregisterSession?
  split
  · exact moves_unregister J hb ext
  · simp only [removedNotes, removed, List.append_nil]
    exact Moves.refl _

/-- A chain is started by one move and carried on by others. -/
theorem moves_startChain (J : List Note) {b : Broker} {bytes : Bytes} {packet : Packet}
    (direction : Direction) (flags : UInt32) {candidates : List Client}
    (hp : Packet.decode b.settings.decodeMode bytes = .ok packet)
    (hc : candidates = (b.registry.matching packet direction).filter (·.interest.isBlocking)) :
    Moves ⟨J, b, none⟩
      ⟨J ++ b.startNotes bytes packet direction flags candidates,
        b.startChain bytes packet direction flags candidates, none⟩ := by
  subst hc
  let c : Chain := { id := b.freshId, bytes, packet, direction, flags }
  let next := c.nextFrom ((b.registry.matching packet direction).filter (·.interest.isBlocking))
  let a : ActiveChain := ⟨next.2, true, b.now, b.now⟩
  have hdrive :=
    moves_drive (J ++ [.started c]) ((b.drawn.addChain a).count .chainsStarted []) a next.1
  rw [List.append_assoc] at hdrive
  exact (Move.started direction flags hp rfl rfl).moves.trans hdrive

/-- The observers that were found are told one after another; that changes nothing they were found
by. -/
theorem moves_copied (J : List Note) {b : Broker} {bytes : Bytes} {packet : Packet}
    (direction : Direction) (flags : UInt32)
    (hp : Packet.decode b.settings.decodeMode bytes = .ok packet) :
    Moves ⟨J, b, none⟩
      ⟨J ++ b.copyNotes bytes direction flags (b.observersOf packet direction),
        b.copied bytes packet direction flags, none⟩ := by
  refine moves_foldl (I := fun b' cs => b'.settings = b.settings ∧ ∀ c ∈ cs,
    c ∈ b'.registry.matching packet direction ∧ c.interest.isBlocking = false) ?_ J
    ⟨rfl, fun _ => mem_observersOf⟩
  rintro J b' c cs ⟨hset, hall⟩
  have htold := told_notify b' bytes direction flags c
  obtain ⟨hmem, hblock⟩ := hall c List.mem_cons_self
  refine
    ⟨(Move.copied flags (by rw [hset]; exact hp) hmem hblock).moves, htold.settings.trans hset, ?_⟩
  rw [htold.registry]
  exact fun d hd => hall d (List.mem_cons_of_mem c hd)

/-- A packet is refused by one move, or copied by one for each observer, and then its chain
starts. -/
theorem moves_submit (J : List Note) (b : Broker) (bytes : Bytes) (direction : Direction)
    (flags : UInt32) :
    Moves ⟨J, b, none⟩
      ⟨J ++ b.submitNotes bytes direction flags, (b.submit bytes direction flags).2, none⟩ := by
  cases b.received bytes direction flags with
  | refused _ hresult hnotes =>
      rw [hresult, hnotes, List.append_nil]
      exact (Move.refused (.inl rfl)).moves
  | passes hp _ hresult hnotes =>
      rw [hresult, hnotes]
      exact moves_copied J direction flags hp
  | @starts packet hp _ hresult hnotes =>
      have htold := told_copied b bytes packet direction flags
      rw [hresult, hnotes]
      refine (moves_copied J direction flags hp).trans ?_
      rw [← List.append_assoc]
      refine moves_startChain _ direction flags ?_ ?_
      · rw [htold.settings]; exact hp
      · rw [htold.registry]; rfl

/-- A caller that looks moves its chain on, and takes its outcome. -/
theorem moves_poll (J : List Note) (b : Broker) (id : UInt64) :
    Moves ⟨J, b, none⟩ ⟨J ++ b.expireNotes id, (b.poll id).2, none⟩ := by
  have hjudged := moves_expire J b id
  cases b.looked id with
  | found hkept hresult =>
      rw [hresult]
      exact hjudged.trans (Move.taken (.inr (by rw [hkept]; rfl))).moves
  | waits _ _ hresult => rw [hresult]; exact hjudged
  | lost _ _ hresult => rw [hresult]; exact hjudged

/-- A caller goes away by one move. -/
theorem moves_abandon (J : List Note) (b : Broker) (id : UInt64) :
    Moves ⟨J, b, none⟩ ⟨J, b.abandon id, none⟩ := by
  unfold abandon
  cases hc : b.chain? id with
  | none => exact (Move.taken (.inl hc)).moves
  | some a =>
      obtain ⟨_, rfl⟩ := chain?_eq_some hc
      exact (Move.abandoned hc).moves

/-- An answer is refused by one move, redeemed by one, or directs its chain. -/
theorem moves_respond (J : List Note) (b : Broker) (ext : String) (r : Response) :
    Moves ⟨J, b, none⟩ ⟨J ++ b.respondNotes ext r, (b.respond ext r).2, none⟩ := by
  cases b.answered ext r with
  | rejected hresult hnotes =>
      rw [hresult, hnotes, List.append_nil]
      exact (Move.refused (.inr rfl)).moves
  | @held a holder hc hh hsender hasked hresult hnotes =>
      have hanswer : b.Allows a r.directive (.answer ext r.interestId) :=
        ⟨holder, hh, hsender, hasked⟩
      obtain ⟨_, hid⟩ := chain?_eq_some hc
      rw [hresult, hnotes]
      rw [← hid] at hc ⊢
      exact moves_apply J _ hc hanswer
  | owned hc ho _ _ hresult hnotes =>
      rw [hresult, hnotes]
      rw [← correlation?_eq_some ho] at hc ho
      exact (Move.redeemed r.directive hc ho).moves

/-- A packet is refused by one move, or pushed by one. -/
theorem moves_inject (J : List Note) (b : Broker) (bytes : Bytes) (direction : Direction)
    (flags : UInt32) :
    Moves ⟨J, b, none⟩
      ⟨J ++ b.injectNotes bytes direction flags, (b.inject bytes direction flags).2, none⟩ := by
  unfold injectNotes inject decode
  cases hp : Packet.decode b.settings.decodeMode bytes with
  | error e =>
      rw [List.append_nil]
      exact (Move.refused (.inl rfl)).moves
  | ok packet => exact (Move.pushed direction flags hp).moves

/-- The chains to be dropped stand in the table until it is their turn. -/
theorem moves_prune (J : List Note) {b : Broker} (hb : b.Distinct) :
    Moves ⟨J, b, none⟩ ⟨J ++ b.pruneNotes, b.prune, none⟩ := by
  refine Move.forgot.moves.trans ?_
  refine moves_foldl
    (I := fun b ids => ids.Nodup ∧ ∀ id ∈ ids, ∃ a, b.chain? id = some a ∧ a.awaited = false)
    ?_ J ⟨?_, ?_⟩
  · rintro J b id ids ⟨hall, habandoned⟩
    obtain ⟨hnot, hnodup⟩ := List.nodup_cons.mp hall
    obtain ⟨a, ha, hawaited⟩ := habandoned id List.mem_cons_self
    obtain ⟨_, rfl⟩ := chain?_eq_some ha
    have hdropped := (Move.dropped (J := J) ha hawaited).moves
    refine ⟨?_, hnodup, fun i hi => ?_⟩
    · rw [dropAbandonedNotes, ha]
      exact hdropped
    · have hne : i ≠ a.chain.id := fun h => hnot (h ▸ hi)
      obtain ⟨x, hx, hxa⟩ := habandoned i (List.mem_cons_of_mem _ hi)
      exact ⟨x, (chain?_dropChain_of_ne hne).trans hx, hxa⟩
  · exact hb.sublist (List.filter_sublist.map _)
  · intro id hid
    obtain ⟨a, ha, rfl⟩ := List.mem_map.mp hid
    obtain ⟨hmem, hawaited⟩ := List.mem_filter.mp ha
    exact ⟨a, chain?_of_mem hb hmem, by simpa using hawaited⟩

/-- A sweep forgets, drops and then judges, each by moves. -/
theorem moves_sweep (J : List Note) {b : Broker} (hb : b.Distinct) :
    Moves ⟨J, b, none⟩ ⟨J ++ b.sweepNotes, b.sweep.2, none⟩ := by
  have hjudged := moves_foldl_expire (J ++ b.pruneNotes) b.prune (b.prune.chains.map (·.chain.id))
  rw [List.append_assoc] at hjudged
  exact (moves_prune J hb).trans hjudged

/-- **Every event is a path of moves**, and its notes are those of the path. -/
theorem moves_step (J : List Note) {b : Broker} (hb : b.Distinct) (e : Event) :
    Moves ⟨J, b, none⟩ ⟨J ++ b.notes e, b.step e, none⟩ := by
  have houtside : e.IsOutside → b.notes e = [] →
      Moves ⟨J, b, none⟩ ⟨J ++ b.notes e, b.step e, none⟩ := by
    intro he hnotes
    rw [hnotes, List.append_nil]
    exact (Move.outside he).moves
  cases e with
  | register ext is capacity => exact moves_register J hb ext is capacity
  | unregister ext => exact moves_unregister J hb ext
  | unregisterSession ext session => exact moves_unregisterSession J hb ext session
  | submit bytes direction flags => exact moves_submit J b bytes direction flags
  | poll id => exact moves_poll J b id
  | expire id => exact moves_expire J b id
  | abandon id =>
      rw [notes, List.append_nil]
      exact moves_abandon J b id
  | respond ext r => exact moves_respond J b ext r
  | inject bytes direction flags => exact moves_inject J b bytes direction flags
  | prune => exact moves_prune J hb
  | sweep => exact moves_sweep J hb
  | later | takeFrames | closeLink | takeInjected | closeInjected => exact houtside trivial rfl

/-! ## runs -/

/-- What every move keeps, moves keep. -/
theorem Moves.induct {m m' : Moment} (h : Moves m m') {P : Moment → Prop}
    (hmove : ∀ m m', Move m m' → P m → P m') (hm : P m) : P m' := by
  induction h with
  | refl => exact hm
  | tail _ hlast ih => exact hmove _ _ hlast ih

/-- No moves give a chain a second entry. -/
theorem Moves.distinct {m m' : Moment} (h : Moves m m') (hm : m.broker.Distinct) :
    m'.broker.Distinct :=
  h.induct (P := fun m => m.broker.Distinct) (fun _ _ hmove hm => Distinct.move hmove hm) hm

/-- Every run is a path of moves from the new broker. -/
theorem Run.moves {settings : BrokerSettings} {J : List Note} {b : Broker} (h : Run settings J b) :
    Moves ⟨[], .new settings, none⟩ ⟨J, b, none⟩ := by
  induction h with
  | new => exact Moves.refl _
  | @step J b e _ ih =>
      have hb : b.Distinct := ih.distinct List.nodup_nil
      have hevent := moves_step (J ++ [.happened e]) hb e
      rw [List.append_assoc] at hevent
      exact ih.trans ((Move.happened e).moves.trans hevent)
  | reordered _ hp ih => exact ih.trans (Move.reordered hp).moves

/-- In every run the chains have different ids. -/
theorem Run.distinct {settings : BrokerSettings} {J : List Note} {b : Broker}
    (h : Run settings J b) : b.Distinct :=
  h.moves.distinct List.nodup_nil

/-- **What every move keeps, every run has.** -/
theorem Run.induct {settings : BrokerSettings} {J : List Note} {b : Broker} (h : Run settings J b)
    {P : Moment → Prop} (hnew : P ⟨[], .new settings, none⟩)
    (hmove : ∀ m m', Move m m' → P m → P m') : P ⟨J, b, none⟩ :=
  h.moves.induct hmove hnew

/-- No move changes the settings. -/
theorem settings_move {m m' : Moment} (h : Move m m') : m'.broker.settings = m.broker.settings := by
  cases h with
  | handed hs => exact (carried_of_trySend hs).settings
  | finished => exact (carried_conclude _ _ _).settings
  | cancelled => exact (carried_conclude _ _ _).settings
  | copied flags _ _ _ => exact (told_notify _ _ _ _ _).settings
  | redeemed d _ _ => exact (posted_redeem _ _ _).settings
  | pushed direction flags _ => exact (posted_enqueue _ _ _ _ _).settings
  | @outside J b e he =>
      cases e with
      | later | takeFrames | closeLink | takeInjected | closeInjected => rfl
      | _ => cases he
  | _ => rfl

/-- Nobody changes the settings of a broker. -/
theorem Run.settings_eq {settings : BrokerSettings} {J : List Note} {b : Broker}
    (h : Run settings J b) : b.settings = settings :=
  h.induct (P := fun m => m.broker.settings = settings) rfl fun _ _ hmove hm =>
    (settings_move hmove).trans hm

end Broker

end Intercept
