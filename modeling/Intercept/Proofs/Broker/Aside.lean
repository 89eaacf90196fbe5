import Intercept.Proofs.Broker.Observers
import Intercept.Proofs.Broker.Standing
import Intercept.Proofs.Registry.Unobserved

/-!
# Intercept.Proofs.Broker.Aside

Observers stand aside, but for the room that their copies take.

```
b.unobserved         the broker without the interests that only ask for copies
Beside b b'          b is b' with observers, and with less room in the queues
Course ..            how a chain fares beside observers, and how without them
b.Crowded N s        the copies that N tells of fill the queue of the session s up
```

A packet is handed in at a broker, and at the same broker without observers.
Its chain goes the same way in both, to the same clients and with the same
success, until it is at a client whose session got copies of the same packet:
both kinds of frames share one queue.  If the copies have filled it up, the
delivery that would have succeeded without them fails, and counts as a
disconnect.
-/

namespace Intercept

/-! ## the same under another id -/

def Chain.renamed (id : UInt64) (c : Chain) : Chain := { c with id }

def Outgoing.renamed (id : UInt64) (packet : Outgoing) : Outgoing := { packet with packetId := id }

def Outcome.renamed (id : UInt64) : Outcome → Outcome
  | passthrough => passthrough
  | forward packet => forward (packet.renamed id)
  | cancelled packet => cancelled (packet.renamed id)

def ActiveChain.renamed (id : UInt64) (a : ActiveChain) : ActiveChain :=
  { a with chain := a.chain.renamed id }

/-- The note with its chain under another id. -/
def Note.renamed (id : UInt64) : Note → Note
  | started c => started (c.renamed id)
  | directed c cause d => directed (c.renamed id) cause d
  | handed c client sent => handed (c.renamed id) client sent
  | ended c outcome => ended (c.renamed id) (outcome.renamed id)
  | dropped c => dropped (c.renamed id)
  | n => n

namespace Chain

theorem nextFrom_renamed (id : UInt64) (c : Chain) (candidates : List Client) :
    (c.renamed id).nextFrom candidates =
      ((c.nextFrom candidates).1, (c.nextFrom candidates).2.renamed id) := by
  have hfind : candidates.find? (c.renamed id).mayAsk = candidates.find? c.mayAsk := rfl
  unfold nextFrom
  rw [hfind]
  cases candidates.find? c.mayAsk with
  | none => rfl
  | some client => rfl

theorem replace_renamed (id : UInt64) (c : Chain) (mode : DecodeMode) (bytes : Bytes)
    (direction : Direction) :
    (c.renamed id).replace mode bytes direction = (c.replace mode bytes direction).renamed id := by
  unfold replace
  cases Packet.decode mode bytes with
  | error e => rfl
  | ok packet => rfl

/-- What a directive does to a chain has nothing to do with its id. -/
theorem advance_renamed (id : UInt64) (c : Chain) (r : Registry) (mode : DecodeMode)
    (d : Directive) :
    (c.renamed id).advance r mode d =
      ((c.advance r mode d).1, (c.advance r mode d).2.renamed id) := by
  have hhit : (c.renamed id).hit = c.hit.renamed id := rfl
  cases d with
  | forward packet direction =>
      unfold advance goOn
      dsimp only
      rw [hhit, replace_renamed]
      exact nextFrom_renamed id _ _
  | pass => exact nextFrom_renamed id c.hit _
  | finish packet direction =>
      unfold advance
      dsimp only
      rw [hhit, replace_renamed]
      rfl
  | cancel => rfl

end Chain

namespace Broker

variable {b b' : Broker} {a : ActiveChain} {id id' : UInt64} {N N' : List Note}

/-! ## two brokers -/

/-- The broker without the interests that only ask for copies. -/
def unobserved (b : Broker) : Broker := { b with registry := b.registry.unobserved }

/-- The one broker has observers and less room in its queues than the other. -/
structure Beside (b b' : Broker) : Prop where
  settings : b'.settings = b.settings
  registry : b'.registry = b.registry.unobserved
  now : b'.now = b.now
  reaches : ∀ ext, b.reaches ext = true → b'.reaches ext = true

/-- The chain fares the same: the same is told of it, it is where it would be, and its outcome, if
it has come, is the same. -/
structure Alike (id id' : UInt64) (b c : Broker) (N : List Note) (b' c' : Broker) (N' : List Note) :
    Prop where
  notes : N = N'.map (·.renamed id)
  chain : c.chain? id = (c'.chain? id').map (·.renamed id)
  outcome : ∃ os : List Outcome, c.outcomes = b.outcomes ++ os.map (fun o => (id, o.renamed id)) ∧
    c'.outcomes = b'.outcomes ++ os.map fun o => (id', o)

/-- How a chain fares at two brokers `b` and `b'`, which it leaves as `c` and `c'`. -/
inductive Course (id id' : UInt64) (b c : Broker) (N : List Note) (b' c' : Broker)
    (N' : List Note) : Prop where
  | alike : Alike id id' b c N b' c' N' →
      (∀ x client, c'.chain? id' = some x → x.chain.holder = some client →
        b.registry.Serves client ∧ b.reaches client.ext = true) →
      Course id id' b c N b' c' N'
  | missed {x : ActiveChain} {client : Client} {P R : List Note} :
      c'.chain? id' = some x → x.chain.holder = some client → b.registry.Serves client →
      b.reaches client.ext = false → b'.reaches client.ext = true →
      N' = P ++ [.handed x.chain client true] →
      N = P.map (·.renamed id) ++ .handed (x.chain.renamed id) client false ::
        .directed (x.chain.renamed id) .disconnect b.settings.onDisconnect.directive :: R →
      Course id id' b c N b' c' N'

theorem outcomes_conclude (b : Broker) (a : ActiveChain) (o : Outcome) :
    (b.conclude a o).outcomes = b.outcomes ++ if a.awaited then [(a.chain.id, o)] else [] := by
  unfold conclude
  cases a.awaited with
  | false => simp [dropChain, count]
  | true => simp [keepOutcome, dropChain, count]

theorem outcomes_of_trySend {sent : Broker} {ext : String} {frame : Frame}
    (h : b.trySend ext frame = some sent) : sent.outcomes = b.outcomes := by
  obtain ⟨_, _, _, _, rfl⟩ := trySend_eq_some h
  rfl

theorem chain?_conclude (b : Broker) (a : ActiveChain) (o : Outcome) :
    (b.conclude a o).chain? a.chain.id = none := by
  rw [chain?, chains_conclude]
  exact chain?_dropChain_self b a.chain.id

/-! ## carrying the chain on -/

/-- A chain that has been queued for somebody waits in the table. -/
theorem chain?_setChain_of_trySend {sent : Broker} {ext : String} {frame : Frame}
    (hs : b.trySend ext frame = some sent) (hin : (b.chain? a.chain.id).isSome) :
    (sent.setChain a).chain? a.chain.id = some a := by
  have hsame : sent.chain? a.chain.id = b.chain? a.chain.id := by
    rw [chain?, chain?, chains_of_trySend hs]
  obtain ⟨x, hx⟩ := Option.isSome_iff_exists.mp hin
  rw [chain?_setChain_self, hsame, hx]
  rfl

/-- A chain that ends ends with the same outcome. -/
theorem course_conclude (b b' : Broker) (a : ActiveChain) (o : Outcome) :
    Course a.chain.id id' b (b.conclude a (o.renamed a.chain.id))
      [.ended a.chain (o.renamed a.chain.id)] b' (b'.conclude (a.renamed id') o)
      [.ended (a.renamed id').chain o] := by
  have hgone := chain?_conclude b a (o.renamed a.chain.id)
  have hgone' : (b'.conclude (a.renamed id') o).chain? id' = none :=
    chain?_conclude b' (a.renamed id') o
  refine .alike ⟨rfl, by rw [hgone, hgone']; rfl, if a.awaited then [o] else [], ?_, ?_⟩ ?_
  · rw [outcomes_conclude]
    cases a.awaited <;> rfl
  · have hawaited : (a.renamed id').awaited = a.awaited := rfl
    rw [outcomes_conclude, hawaited]
    cases a.awaited <;> rfl
  · intro x client hx
    rw [hgone'] at hx
    cases hx

/-- What both do first may be told first. -/
theorem Course.cons {c c' : Broker} {n : Note}
    (h : Course id id' b c N b' c' N') (n' : Note) (hn : n = n'.renamed id) :
    Course id id' b c (n :: N) b' c' (n' :: N') := by
  cases h with
  | alike halike hreached =>
      exact .alike ⟨by rw [halike.notes, hn, List.map_cons], halike.chain, halike.outcome⟩ hreached
  | @missed x client P R hx hholder hserves hfull hroom hN' hN =>
      exact .missed (P := n' :: P) hx hholder hserves hfull hroom (by rw [hN', List.cons_append])
        (by rw [hN, hn, List.map_cons, List.cons_append])

/-- Of the brokers before, only these things matter. -/
theorem Course.behind {c c' d d' : Broker} (h : Course id id' d c N d' c' N')
    (hsettings : d.settings = b.settings) (hregistry : d.registry = b.registry)
    (houtcomes : d.outcomes = b.outcomes) (houtcomes' : d'.outcomes = b'.outcomes)
    (hreaches : d.reaches = b.reaches) (hreaches' : d'.reaches = b'.reaches) :
    Course id id' b c N b' c' N' := by
  cases h with
  | alike halike hreached =>
      obtain ⟨os, hos, hos'⟩ := halike.outcome
      rw [houtcomes] at hos
      rw [houtcomes'] at hos'
      rw [hregistry, hreaches] at hreached
      exact .alike ⟨halike.notes, halike.chain, os, hos, hos'⟩ hreached
  | missed hx hholder hserves hfull hroom hN' hN =>
      rw [hregistry] at hserves
      rw [hreaches] at hfull
      rw [hreaches'] at hroom
      rw [hsettings] at hN
      exact .missed hx hholder hserves hfull hroom hN' hN

theorem Beside.count (hb : Beside b b') (counter : Counter) (labels : List (String × String)) :
    Beside (b.count counter labels) (b'.count counter labels) :=
  ⟨hb.settings, hb.registry, hb.now, hb.reaches⟩

/-- The next step of a chain is the same in both. -/
theorem Beside.advance_eq (hb : Beside b b') (hfiled : b.registry.Filed) (c : Chain)
    (d : Directive) :
    (c.renamed id').advance b'.registry b'.settings.decodeMode d =
      ((c.advance b.registry b.settings.decodeMode d).1,
        (c.advance b.registry b.settings.decodeMode d).2.renamed id') := by
  rw [hb.registry, hb.settings, Chain.advance_unobserved hfiled, Chain.advance_renamed]

/-- A frame that is queued at the first broker is queued at the other one. -/
theorem Beside.trySend {sent : Broker} {ext : String} {frame : Frame} (hb : Beside b b')
    (hs : b.trySend ext frame = some sent) (frame' : Frame) :
    ∃ sent', b'.trySend ext frame' = some sent' := by
  refine Option.isSome_iff_exists.mp ?_
  rw [isSome_trySend]
  apply hb.reaches
  rw [← isSome_trySend b ext frame, hs]
  rfl

/-- The chain is queued in both. -/
theorem course_sent {sent sent' : Broker} {client : Client} (hb : Beside b b')
    (hs : b.trySend client.ext (a.chain.frameFor client) = some sent)
    (hs' : b'.trySend client.ext ((a.renamed id').chain.frameFor client) = some sent')
    (hholder : a.chain.holder = some client) (hserves : b.registry.Serves client)
    (hin : (b.chain? a.chain.id).isSome) (hin' : (b'.chain? id').isSome) :
    Course a.chain.id id' b (sent.setChain { a with hopStarted := b.now })
      [.handed a.chain client true] b' (sent'.setChain { a.renamed id' with hopStarted := b'.now })
      [.handed (a.renamed id').chain client true] := by
  have hset : (sent.setChain { a with hopStarted := b.now }).chain? a.chain.id =
      some { a with hopStarted := b.now } :=
    chain?_setChain_of_trySend (a := { a with hopStarted := b.now }) hs hin
  have hset' : (sent'.setChain { a.renamed id' with hopStarted := b'.now }).chain? id' =
      some { a.renamed id' with hopStarted := b'.now } :=
    chain?_setChain_of_trySend (a := { a.renamed id' with hopStarted := b'.now }) hs' hin'
  refine .alike ⟨rfl, ?_, [], ?_, ?_⟩ fun x holder hx hholder' => ?_
  · rw [hset, hset', hb.now]
    rfl
  · exact (outcomes_of_trySend hs).trans (List.append_nil _).symm
  · exact (outcomes_of_trySend hs').trans (List.append_nil _).symm
  · rw [hset'] at hx
    cases hx
    have hsame : some client = some holder := hholder.symm.trans hholder'
    cases hsame
    refine ⟨hserves, ?_⟩
    rw [← isSome_trySend b client.ext (a.chain.frameFor client), hs]
    rfl

/-- **A chain goes the same way in both, until room makes a difference.** -/
theorem course_drive (step : Step) (hsound : b.registry.Sound) (hfiled : b.registry.Filed)
    (hgoes : a.chain.GoesTo b.registry step) (hid : a.chain.id = id) (hin : (b.chain? id).isSome) :
    ∀ b', Beside b b' → (b'.chain? id').isSome →
      Course id id' b (b.drive a step) (b.driveNotes a step) b' (b'.drive (a.renamed id') step)
        (b'.driveNotes (a.renamed id') step) := by
  induction b, a, step using drive.induct with
  | case1 b a =>
      intro b' _ _
      subst hid
      rw [drive, driveNotes, drive, driveNotes]
      exact course_conclude b b' a (.forward (a.renamed id').chain.outgoing)
  | case2 b a =>
      intro b' _ _
      subst hid
      rw [drive, driveNotes, drive, driveNotes]
      exact course_conclude b b' a (.cancelled (a.renamed id').chain.outgoing)
  | case3 b a client sent hs =>
      intro b' hb hin'
      subst hid
      obtain ⟨hholder, _, hserves, _⟩ := hgoes client rfl
      obtain ⟨sent', hs'⟩ := hb.trySend hs ((a.renamed id').chain.frameFor client)
      rw [drive, driveNotes, hs, drive, driveNotes, hs']
      exact course_sent hb hs hs' hholder hserves hin hin'
  | case4 b a client hs next ih =>
      intro b' hb hin'
      obtain ⟨hholder, _, hserves, _⟩ := hgoes client rfl
      have hfull : b.reaches client.ext = false := by
        rw [← isSome_trySend b client.ext (a.chain.frameFor client), hs]
        rfl
      cases hs' : b'.trySend client.ext ((a.renamed id').chain.frameFor client) with
      | some sent' =>
          have hset' : (sent'.setChain { a.renamed id' with hopStarted := b'.now }).chain? id' =
              some { a.renamed id' with hopStarted := b'.now } :=
            chain?_setChain_of_trySend (a := { a.renamed id' with hopStarted := b'.now }) hs' hin'
          have hroom : b'.reaches client.ext = true := by
            rw [← isSome_trySend b' client.ext ((a.renamed id').chain.frameFor client), hs']
            rfl
          subst hid
          rw [drive, driveNotes, hs, drive, driveNotes, hs']
          exact .missed (P := []) hset' hholder hserves hfull hroom rfl rfl
      | none =>
          have hnext : (a.renamed id').chain.advance b'.registry b'.settings.decodeMode
              b'.settings.onDisconnect.directive = _ :=
            hb.advance_eq hfiled a.chain b'.settings.onDisconnect.directive
          rw [hb.settings] at hnext
          have hrest := ih hsound hfiled (Chain.goesTo_advance hsound _ _ _)
            ((Chain.advance_id _ _ _ _).trans hid) hin _ (hb.count .disconnectFallbacks []) hin'
          subst hid
          rw [drive, driveNotes, hs, drive, driveNotes, hs']
          dsimp only
          rw [hb.settings, hnext]
          refine .cons (.cons ?_ (.directed (a.renamed id').chain .disconnect
            b.settings.onDisconnect.directive) rfl) (.handed (a.renamed id').chain client false) rfl
          exact hrest.behind rfl rfl rfl rfl rfl rfl

/-! ## handing in a packet -/

/-- The chains that two such brokers start with the same candidates. -/
theorem course_startChain (hb : Beside b b') (hsound : b.registry.Sound)
    (hfiled : b.registry.Filed) (bytes : Bytes) (packet : Packet) (direction : Direction)
    (flags : UInt32) {candidates : List Client}
    (hserves : ∀ client ∈ candidates, b.registry.Serves client) :
    Course b.freshId b'.freshId
      b (b.startChain bytes packet direction flags candidates)
      (b.startNotes bytes packet direction flags candidates)
      b' (b'.startChain bytes packet direction flags candidates)
      (b'.startNotes bytes packet direction flags candidates) := by
  let c : Chain := { id := b.freshId, bytes, packet, direction, flags }
  let next := c.nextFrom candidates
  let a : ActiveChain := ⟨next.2, true, b.now, b.now⟩
  let a' : ActiveChain := ⟨((c.renamed b'.freshId).nextFrom candidates).2, true, b'.now, b'.now⟩
  have ha' : a' = a.renamed b'.freshId := by
    simp only [a', hb.now, Chain.nextFrom_renamed]
    rfl
  have hid : a.chain.id = b.freshId := Chain.nextFrom_id c candidates
  have hid' : a'.chain.id = b'.freshId := Chain.nextFrom_id _ candidates
  have hin : ((b.drawn.addChain a).chain? b.freshId).isSome := by
    rw [← hid, chain?_addChain_self]
    rfl
  have hin' : ((b'.drawn.addChain a').chain? b'.freshId).isSome := by
    rw [← hid', chain?_addChain_self]
    rfl
  have hbeside : Beside ((b.drawn.addChain a).count .chainsStarted [])
      ((b'.drawn.addChain a').count .chainsStarted []) :=
    ⟨hb.settings, hb.registry, hb.now, hb.reaches⟩
  have hdrive := course_drive (b := (b.drawn.addChain a).count .chainsStarted []) (a := a) next.1
    hsound hfiled (Chain.goesTo_nextFrom c hserves) hid hin _ hbeside hin'
  have hfirst : ((c.renamed b'.freshId).nextFrom candidates).1 = next.1 := by
    rw [Chain.nextFrom_renamed]
  have hstart : b'.startChain bytes packet direction flags candidates =
      ((b'.drawn.addChain a').count .chainsStarted []).drive a' next.1 := by
    rw [← hfirst]
    rfl
  have hnotes : b'.startNotes bytes packet direction flags candidates =
      .started (c.renamed b'.freshId) ::
        ((b'.drawn.addChain a').count .chainsStarted []).driveNotes a' next.1 := by
    rw [← hfirst]
    rfl
  rw [hstart, hnotes]
  rw [← ha'] at hdrive
  refine .cons ?_ (.started (c.renamed b'.freshId)) rfl
  exact hdrive.behind rfl rfl rfl rfl rfl rfl

/-- The copies of a packet fill the queue of a session up: some were put there, and now there is no
room. -/
def Crowded (b : Broker) (copies : List Note) (session : Nat) : Prop :=
  framesFor session copies ≠ [] ∧ b.roomBehind copies session = false

/-- How a packet fares that is handed in at a broker, and at the same broker without observers. -/
inductive Fares (b : Broker) (bytes : Bytes) (direction : Direction) (flags : UInt32) : Prop where
  | refused {fault : Fault} : (b.submit bytes direction flags).1 = .error fault →
      (b.unobserved.submit bytes direction flags).1 = .error fault → Fares b bytes direction flags
  | passes : (b.submit bytes direction flags).1 = .ok .passthrough →
      (b.unobserved.submit bytes direction flags).1 = .ok .passthrough →
      Fares b bytes direction flags
  /-- The chain waits for nobody whose queue the copies fill up, and fares as without them. -/
  | alike {packet : Packet} {id id' : UInt64} {N : List Note} :
      Packet.decode b.settings.decodeMode bytes = .ok packet →
      (b.submit bytes direction flags).1 = .ok (.chain id) →
      (b.unobserved.submit bytes direction flags).1 = .ok (.chain id') →
      (∀ x client, (b.unobserved.submit bytes direction flags).2.chain? id' = some x →
        x.chain.holder = some client → ¬b.Crowded (b.copyNotes bytes direction flags
          (b.observersOf packet direction)) client.session) →
      b.notes (.submit bytes direction flags) =
        b.copyNotes bytes direction flags (b.observersOf packet direction) ++ N →
      Alike id id' b (b.submit bytes direction flags).2 N b.unobserved
        (b.unobserved.submit bytes direction flags).2
        (b.unobserved.notes (.submit bytes direction flags)) →
      Fares b bytes direction flags
  /-- The chain would wait for somebody whose queue the copies fill up.  It fares as without them
  as far as to that client; there the frame has no room, and the fallback takes the place of the
  answer. -/
  | crowded {packet : Packet} {id id' : UInt64} {x : ActiveChain} {client : Client}
      {P R : List Note} :
      Packet.decode b.settings.decodeMode bytes = .ok packet →
      (b.submit bytes direction flags).1 = .ok (.chain id) →
      (b.unobserved.submit bytes direction flags).1 = .ok (.chain id') →
      (b.unobserved.submit bytes direction flags).2.chain? id' = some x →
      x.chain.holder = some client →
      b.Crowded (b.copyNotes bytes direction flags (b.observersOf packet direction))
        client.session →
      b.unobserved.notes (.submit bytes direction flags) = P ++ [.handed x.chain client true] →
      b.notes (.submit bytes direction flags) =
        b.copyNotes bytes direction flags (b.observersOf packet direction) ++
          (P.map (·.renamed id) ++ .handed (x.chain.renamed id) client false ::
            .directed (x.chain.renamed id) .disconnect b.settings.onDisconnect.directive :: R) →
      Fares b bytes direction flags

/-- Behind its copies a packet finds the queues as they are without observers, or fuller. -/
theorem beside_foldl_notify {b₁ : Broker} {copies : List Note} (htold : Told b b₁)
    (hfed : Fed copies b b₁) : Beside b₁ b.unobserved := by
  refine ⟨htold.settings.symm, congrArg Registry.unobserved htold.registry.symm, htold.now.symm,
    fun ext hreaches => ?_⟩
  unfold reaches at hreaches ⊢
  rw [htold.registry] at hreaches
  have hget : b.unobserved.registry.get? ext = _ := Registry.get?_unobserved b.registry ext
  rw [hget]
  cases hg : b.registry.get? ext with
  | none =>
      rw [hg] at hreaches
      cases hreaches
  | some g =>
      rw [hg] at hreaches
      exact hfed.room (s := g.session) hreaches

/-- What of a client's being reached behind copies its queue tells. -/
theorem reaches_behind {b₁ : Broker} {copies : List Note} {client : Client}
    (hfed : Fed copies b b₁) (hserves : b₁.registry.Serves client) :
    b₁.reaches client.ext = b.roomBehind copies client.session := by
  rw [reaches_of_serves hserves, hfed.queue, Option.any_map]
  rfl

/-- A client that is reached without the copies and not with them is one whose queue they fill. -/
theorem crowded_of_reaches {b₁ : Broker} {copies : List Note} {client : Client} (htold : Told b b₁)
    (hfed : Fed copies b b₁) (hserves : b₁.registry.Serves client)
    (hfull : b₁.reaches client.ext = false) (hroom : b.unobserved.reaches client.ext = true) :
    b.Crowded copies client.session := by
  rw [reaches_behind hfed hserves] at hfull
  refine ⟨fun hnone => ?_, hfull⟩
  have hserves : b.registry.Serves client := htold.registry ▸ hserves
  obtain ⟨g, hg, hs, _⟩ := hserves
  have hget : b.unobserved.registry.get? client.ext = some g.unobserved := by
    have := Registry.get?_unobserved b.registry client.ext
    rwa [hg] at this
  rw [reaches, hget] at hroom
  have hsame : (b.queue? client.session).any (·.hasRoom) = true := by
    rw [← hs]
    exact hroom
  have hempty : (b.queue? client.session).any (·.hasRoom) = false := by
    unfold roomBehind at hfull
    rw [hnone] at hfull
    simpa using hfull
  rw [hsame] at hempty
  cases hempty

/-- Without observers nobody gets a copy. -/
theorem observersOf_unobserved (hfiled : b.registry.Filed) (packet : Packet)
    (direction : Direction) : b.unobserved.observersOf packet direction = [] := by
  have hmatching : b.unobserved.registry.matching packet direction = _ :=
    Registry.matching_unobserved hfiled packet direction
  rw [observersOf, hmatching, List.filter_filter, List.filter_eq_nil_iff]
  simp

/-- The same clients may hold the packet. -/
theorem candidates_unobserved (hfiled : b.registry.Filed) (packet : Packet)
    (direction : Direction) :
    b.unobserved.candidates packet direction = b.candidates packet direction := by
  have hmatching : b.unobserved.registry.matching packet direction = _ :=
    Registry.matching_unobserved hfiled packet direction
  rw [candidates, hmatching, List.filter_filter]
  simp [candidates]

/-- The chain that a packet starts behind its copies, and the one that it starts without. -/
theorem course_submit (hsound : b.registry.Sound) (hfiled : b.registry.Filed) (bytes : Bytes)
    (packet : Packet) (direction : Direction) (flags : UInt32) :
    let copied := b.copied bytes packet direction flags
    let candidates := b.candidates packet direction
    Course copied.freshId b.unobserved.freshId
      copied (copied.startChain bytes packet direction flags candidates)
      (copied.startNotes bytes packet direction flags candidates)
      b.unobserved (b.unobserved.startChain bytes packet direction flags candidates)
      (b.unobserved.startNotes bytes packet direction flags candidates) := by
  have htold : Told b (b.copied bytes packet direction flags) := told_copied _ _ _ _ _
  refine course_startChain
    (beside_foldl_notify htold (fed_copyNotes hsound bytes packet direction flags)) ?_ ?_ bytes
    packet direction flags fun c hc => ?_
  · rw [htold.registry]
    exact hsound
  · rw [htold.registry]
    exact hfiled
  · rw [htold.registry]
    exact hsound.serves_of_mem_matching (List.mem_filter.mp hc).1

/-- **Observers stand aside, but for the room that their copies take.** -/
theorem Run.fares {settings : BrokerSettings} {J : List Note} (h : Run settings J b) (bytes : Bytes)
    (direction : Direction) (flags : UInt32) : b.Fares bytes direction flags := by
  have hsound := h.reachable.tended.sound
  cases hp : Packet.decode b.settings.decodeMode bytes with
  | error e =>
      have hrefused : (b.submit bytes direction flags).1 = .error (.codec e) := by
        simp only [submit, decode, hp]
      have hrefused' : (b.unobserved.submit bytes direction flags).1 = .error (.codec e) := by
        simp only [submit, decode, unobserved, hp]
      exact .refused hrefused hrefused'
  | ok packet =>
      have hp' : Packet.decode b.unobserved.settings.decodeMode bytes = .ok packet := hp
      have hnobody := observersOf_unobserved h.filed packet direction
      have hcandidates := candidates_unobserved h.filed packet direction
      have hcopied' : b.unobserved.copied bytes packet direction flags = b.unobserved := by
        rw [copied, hnobody]
        rfl
      have hsubmit := submit_eq hp direction flags
      have hsubmit' := submit_eq hp' direction flags
      rw [hcandidates, hcopied'] at hsubmit'
      by_cases hnone : b.candidates packet direction = []
      · rw [if_pos hnone] at hsubmit hsubmit'
        exact .passes (by rw [hsubmit]) (by rw [hsubmit'])
      · rw [if_neg hnone] at hsubmit hsubmit'
        have hnotes : b.notes (.submit bytes direction flags) = _ :=
          submitNotes_eq hp direction flags
        have hnotes' : b.unobserved.notes (.submit bytes direction flags) = _ :=
          submitNotes_eq hp' direction flags
        rw [if_neg hnone] at hnotes
        rw [hnobody, hcandidates, hcopied', if_neg hnone] at hnotes'
        have htold : Told b (b.copied bytes packet direction flags) := told_copied _ _ _ _ _
        have hfed := fed_copyNotes hsound bytes packet direction flags
        cases course_submit hsound h.filed bytes packet direction flags with
        | alike halike hreached =>
            refine .alike hp (by rw [hsubmit]) (by rw [hsubmit'])
              (fun x client hx hholder hfull => ?_)
              hnotes ?_
            · rw [hsubmit'] at hx
              obtain ⟨hserves, hreaches⟩ := hreached x client hx hholder
              rw [reaches_behind hfed hserves, hfull.2] at hreaches
              cases hreaches
            · obtain ⟨os, hos, hos'⟩ := halike.outcome
              rw [htold.outcomes] at hos
              rw [hsubmit, hsubmit', hnotes']
              exact ⟨halike.notes, halike.chain, os, hos, hos'⟩
        | @missed x client P R hx hholder hserves hfull hroom hN' hN =>
            refine .crowded (R := R) hp (by rw [hsubmit]) (by rw [hsubmit']) (by rwa [hsubmit'])
              hholder (crowded_of_reaches htold hfed hserves hfull hroom) (hnotes'.trans hN') ?_
            rw [hnotes, hN, htold.settings]

/-- An extension observes what it holds, and its queue has room for one frame; another one holds the
same packets. -/
def doubled : Broker :=
  [Event.register "both" [{ id := 1, kind := .net .genericText },
      { id := 2, kind := .net .genericText, blocking := .sendAndForget }] 1,
    .register "other" [{ id := 1, kind := .net .genericText }] 4].foldl Broker.step (.new {})

theorem run_doubled : ∃ J, Run {} J doubled := ⟨_, Run.new.foldl _⟩

/-- The copy is in the way of the chain, which goes on to the next client; without observers it
would wait. -/
theorem fares_past_a_copy : ∃ J, Run {} J doubled ∧
    doubled.Fares [2, 0, 0, 0, 0] .clientToServer 0 ∧
    ((doubled.submit [2, 0, 0, 0, 0] .clientToServer 0).2.chain? 2).map
      (·.chain.holder.map (·.ext)) = some (some "other") ∧
    ((doubled.unobserved.submit [2, 0, 0, 0, 0] .clientToServer 0).2.chain? 1).map
      (·.chain.holder.map (·.ext)) = some (some "both") := by
  obtain ⟨J, hrun⟩ := run_doubled
  exact ⟨J, hrun, hrun.fares _ _ _, by cbv, by cbv⟩

/-- A packet is not always left with the client that would hold it without observers. -/
theorem holder_beside_observers : ¬∀ settings J b, Run settings J b →
    ∀ bytes direction flags id id', (b.submit bytes direction flags).1 = .ok (.chain id) →
      (b.unobserved.submit bytes direction flags).1 = .ok (.chain id') →
      ((b.submit bytes direction flags).2.chain? id).map (·.chain.holder) =
        ((b.unobserved.submit bytes direction flags).2.chain? id').map (·.chain.holder) := by
  intro h
  obtain ⟨J, hrun⟩ := run_doubled
  have hsame := h {} J doubled hrun [2, 0, 0, 0, 0] .clientToServer 0 2 1 (by cbv) (by cbv)
  have hother : ((doubled.submit [2, 0, 0, 0, 0] .clientToServer 0).2.chain? 2).map
      (·.chain.holder.map (·.ext)) = some (some "other") := by cbv
  have hboth : ((doubled.unobserved.submit [2, 0, 0, 0, 0] .clientToServer 0).2.chain? 1).map
      (·.chain.holder.map (·.ext)) = some (some "both") := by cbv
  have hnames := congrArg (Option.map (Option.map Client.ext)) hsame
  rw [Option.map_map, Option.map_map] at hnames
  have hequal := hother.symm.trans (hnames.trans hboth)
  simp at hequal

end Broker

end Intercept
