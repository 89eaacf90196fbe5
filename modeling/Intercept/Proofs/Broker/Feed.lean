import Intercept.Proofs.Broker.Outbound
import Intercept.Proofs.Broker.Roster

/-!
# Intercept.Proofs.Broker.Feed

What gets into the queues of the sessions and on the outbound path.

```
b.queue? s       the queue of the session s
q.fed xs         the queue q with xs behind what it holds
framesFor s N    the frames that the notes N put in the queue of the session s
packets N        the packets that they put on the outbound path
b.Fits p n       what n tells behind the notes p was put somewhere if and only if it had room
Fed N b b'       every queue of b' is that of b, fed what N tells, and all of it fits
```

Nothing gets into a queue untold, and what is told of is put there once, at
the end and in order: `fed_step`, for every event but those outside, which
only take.
-/

namespace Intercept

namespace BoundedQueue

variable {α : Type}

/-- The queue with these items behind what it holds. -/
def fed (q : BoundedQueue α) (xs : List α) : BoundedQueue α := { q with items := q.items ++ xs }

/-- Whether one more item can be put. -/
def hasRoom (q : BoundedQueue α) : Bool := q.isOpen && q.items.length < q.capacity

@[simp] theorem fed_nil (q : BoundedQueue α) : q.fed [] = q := by simp [fed]

theorem fed_fed (q : BoundedQueue α) (xs ys : List α) : (q.fed xs).fed ys = q.fed (xs ++ ys) := by
  simp [fed]

/-- Putting an item feeds it to the queue, and fails without room. -/
theorem push?_eq (q : BoundedQueue α) (a : α) :
    q.push? a = if q.hasRoom then some (q.fed [a]) else none := rfl

/-- Feeding makes no room. -/
theorem hasRoom_of_fed {q : BoundedQueue α} {xs : List α} (h : (q.fed xs).hasRoom = true) :
    q.hasRoom = true := by
  simp only [hasRoom, fed, Bool.and_eq_true, decide_eq_true_eq, List.length_append] at h ⊢
  exact ⟨h.1, by omega⟩

end BoundedQueue

/-! ## what notes put in queues -/

/-- The frame that a note puts in the queue of a session. -/
def Note.frame? (session : Nat) : Note → Option Frame
  | copied client frame true => if client.session = session then some frame else none
  | handed c client true => if client.session = session then some (c.frameFor client) else none
  | _ => none

/-- The packet that a note puts on the outbound path. -/
def Note.packet? : Note → Option Outgoing
  | injected packet _ => some packet
  | _ => none

/-- Whether the note tells of something for a queue, be there room for it or not. -/
def Note.feeds : Note → Bool
  | copied .. | handed .. | injected .. => true
  | _ => false

def framesFor (session : Nat) (N : List Note) : List Frame := N.filterMap (Note.frame? session)

def packets (N : List Note) : List Outgoing := N.filterMap Note.packet?

theorem framesFor_append (session : Nat) (N N' : List Note) :
    framesFor session (N ++ N') = framesFor session N ++ framesFor session N' :=
  List.filterMap_append

theorem packets_append (N N' : List Note) : packets (N ++ N') = packets N ++ packets N' :=
  List.filterMap_append

/-- Notes that feed nothing put no frame in any queue. -/
theorem framesFor_of_still {N : List Note} (h : ∀ n ∈ N, n.feeds = false) (session : Nat) :
    framesFor session N = [] := by
  refine List.filterMap_eq_nil_iff.mpr fun n hn => ?_
  have hn := h n hn
  cases n with
  | copied | handed | injected => cases hn
  | happened | started | directed | ended | dropped | redeemed => rfl

theorem packets_of_still {N : List Note} (h : ∀ n ∈ N, n.feeds = false) : packets N = [] := by
  refine List.filterMap_eq_nil_iff.mpr fun n hn => ?_
  have hn := h n hn
  cases n with
  | copied | handed | injected => cases hn
  | happened | started | directed | ended | dropped | redeemed => rfl

namespace Broker

variable {b b' b'' : Broker} {N N' : List Note}

/-! ## the queue of a session -/

/-- The queue of a session. -/
def queue? (b : Broker) (session : Nat) : Option (BoundedQueue Frame) :=
  (b.links.find? (·.session = session)).map (·.queue)

/-- A change of the queue of a session changes no other queue. -/
theorem queue?_mapQueue (b : Broker) (session s : Nat)
    (f : BoundedQueue Frame → BoundedQueue Frame) :
    (b.mapQueue session f).queue? s = if s = session then (b.queue? s).map f else b.queue? s := by
  unfold queue? mapQueue
  induction b.links with
  | nil => simp
  | cons l ls ih =>
      by_cases hl : l.session = session
      · by_cases hs : s = session
        · simp [hl, hs]
        · have hne : l.session ≠ s := fun h => hs (h.symm.trans hl)
          simpa [hl, hs, hne, Ne.symm hs] using ih
      · by_cases hs : l.session = s
        · have hne : s ≠ session := fun h => hl (hs.trans h)
          simp [hs, hne]
        · simpa [hl, hs] using ih

/-- The queue that the broker sends an extension its frames by is that of its session. -/
theorem queue?_of_link? {ext : String} {link : Link} (h : b.link? ext = some link) :
    ∃ g, b.registry.get? ext = some g ∧ g.session = link.session ∧
      b.queue? link.session = some link.queue := by
  obtain ⟨g, hg, hfind⟩ := Option.bind_eq_some_iff.mp h
  have hsession : link.session = g.session := by simpa using List.find?_some hfind
  refine ⟨g, hg, hsession.symm, ?_⟩
  rw [queue?, hsession, hfind]
  rfl

/-- Whether a frame for the extension can be queued. -/
def reaches (b : Broker) (ext : String) : Bool :=
  (b.registry.get? ext).any fun g => (b.queue? g.session).any (·.hasRoom)

/-- A frame is sent if and only if one can be queued for the extension. -/
theorem isSome_trySend (b : Broker) (ext : String) (frame : Frame) :
    (b.trySend ext frame).isSome = b.reaches ext := by
  unfold trySend reaches link? queue?
  cases b.registry.get? ext with
  | none => rfl
  | some g =>
      cases hl : b.links.find? (·.session = g.session) with
      | none => simp [hl]
      | some link => cases hq : link.queue.hasRoom <;> simp [hl, hq, BoundedQueue.push?_eq]

/-- A client that is served is reached through the queue of its session. -/
theorem reaches_of_serves {client : Client} (h : b.registry.Serves client) :
    b.reaches client.ext = (b.queue? client.session).any (·.hasRoom) := by
  obtain ⟨g, hg, hs, _⟩ := h
  rw [reaches, hg, ← hs]
  rfl

/-- A sent frame is the last in the queue of its client, and in no other. -/
theorem queue?_of_trySend {sent : Broker} {client : Client} {frame : Frame}
    (h : b.registry.Serves client) (hs : b.trySend client.ext frame = some sent) (s : Nat) :
    sent.queue? s = (b.queue? s).map (·.fed (if client.session = s then [frame] else [])) := by
  obtain ⟨link, queue, hlink, hpush, rfl⟩ := trySend_eq_some hs
  obtain ⟨g, hg, hsession, hq⟩ := queue?_of_link? hlink
  rw [← hsession, h.session_eq hg] at hq
  have hfed : queue = link.queue.fed [frame] := by
    rw [BoundedQueue.push?_eq] at hpush
    split at hpush
    · exact (Option.some.inj hpush).symm
    · cases hpush
  rw [queue?_mapQueue, ← hsession, h.session_eq hg]
  by_cases hs : client.session = s
  · subst hs
    rw [if_pos rfl, if_pos rfl, hq, hfed]
    rfl
  · rw [if_neg (Ne.symm hs), if_neg hs]
    cases b.queue? s with
    | none => rfl
    | some q => simp

/-! ## feeding -/

/-- Whether the queue of a session has room behind what these notes put there. -/
def roomBehind (b : Broker) (p : List Note) (session : Nat) : Bool :=
  (b.queue? session).any fun q => (q.fed (framesFor session p)).hasRoom

/-- Copies go to observers and chains to the others, each put in the queue if and only if it had
room behind what was put there before; and a packet gets on the outbound path only if it had. -/
def Fits (b : Broker) (p : List Note) : Note → Prop
  | .copied client _ sent =>
      client.interest.isBlocking = false ∧ sent = b.roomBehind p client.session
  | .handed _ client sent =>
      client.interest.isBlocking = true ∧ sent = b.roomBehind p client.session
  | .injected .. => (b.injected.fed (packets p)).hasRoom = true
  | _ => True

/-- Every queue has been fed what is told, and all of it fits. -/
structure Fed (N : List Note) (b b' : Broker) : Prop where
  queue : ∀ s, b'.queue? s = (b.queue? s).map (·.fed (framesFor s N))
  injected : b'.injected = b.injected.fed (packets N)
  fits : Lawful b.Fits N

theorem roomBehind_nil (b : Broker) (session : Nat) :
    b.roomBehind [] session = (b.queue? session).any (·.hasRoom) := by
  simp [roomBehind, framesFor]

/-- A queue that has room then has room now. -/
theorem Fed.room (h : Fed N b b') {s : Nat} (hroom : (b'.queue? s).any (·.hasRoom) = true) :
    (b.queue? s).any (·.hasRoom) = true := by
  rw [h.queue, Option.any_map, Option.any_eq_true] at hroom
  obtain ⟨q, hq, hfed⟩ := hroom
  rw [Option.any_eq_true]
  exact ⟨q, hq, BoundedQueue.hasRoom_of_fed hfed⟩

/-- There is room behind `N` and `p` if and only if there is behind `p` where `N` leads. -/
theorem roomBehind_append (h : Fed N b b') (p : List Note) (session : Nat) :
    b.roomBehind (N ++ p) session = b'.roomBehind p session := by
  rw [roomBehind, roomBehind, h.queue, framesFor_append, Option.any_map]
  simp only [BoundedQueue.fed_fed]

/-- What fits where some notes lead fits behind them. -/
theorem fits_append (h : Fed N b b') {p : List Note} {n : Note} (hn : b'.Fits p n) :
    b.Fits (N ++ p) n := by
  cases n with
  | copied client frame sent => exact ⟨hn.1, hn.2.trans (roomBehind_append h p _).symm⟩
  | handed c client sent => exact ⟨hn.1, hn.2.trans (roomBehind_append h p _).symm⟩
  | injected packet source =>
      have hroom : (b'.injected.fed (packets p)).hasRoom = true := hn
      rw [h.injected, BoundedQueue.fed_fed, ← packets_append] at hroom
      exact hroom
  | happened | started | directed | ended | dropped | redeemed => trivial

/-- Nothing is put anywhere. -/
theorem Fed.still (hN : ∀ n ∈ N, n.feeds = false) (hlinks : b'.links = b.links)
    (hinjected : b'.injected = b.injected) : Fed N b b' := by
  constructor
  · intro s
    unfold queue?
    rw [hlinks, framesFor_of_still hN]
    cases b.links.find? (·.session = s) with
    | none => rfl
    | some l => exact congrArg some l.queue.fed_nil.symm
  · rw [hinjected, packets_of_still hN, BoundedQueue.fed_nil]
  · refine lawful_of_forall fun p n hn => ?_
    have hn := hN n hn
    cases n with
    | copied | handed | injected => cases hn
    | happened | started | directed | ended | dropped | redeemed => trivial

theorem Fed.refl (b : Broker) : Fed [] b b := .still (by simp) rfl rfl

theorem Fed.trans (h : Fed N b b') (h' : Fed N' b' b'') : Fed (N ++ N') b b'' := by
  constructor
  · intro s
    rw [h'.queue, h.queue, Option.map_map, framesFor_append]
    congr 1
    funext q
    exact q.fed_fed _ _
  · rw [h'.injected, h.injected, BoundedQueue.fed_fed, packets_append]
  · exact lawful_append.mpr ⟨h.fits, fun p n hp => fits_append h (h'.fits p n hp)⟩

/-- What feeds no queue may come before. -/
theorem Fed.behind (h : Fed N b' b'') (hlinks : b'.links = b.links)
    (hinjected : b'.injected = b.injected) : Fed N b b'' :=
  Fed.trans (N := []) (.still (by simp) hlinks hinjected) h

/-- What feeds no queue may come after. -/
theorem Fed.before (h : Fed N b b') (hlinks : b''.links = b'.links)
    (hinjected : b''.injected = b'.injected) : Fed N b b'' := by
  have hafter : Fed (N ++ []) b b'' := h.trans (.still (by simp) hlinks hinjected)
  rwa [List.append_nil] at hafter

/-- A frame for a client that is served is put in its queue if there is room. -/
theorem Fed.frame {client : Client} {frame : Frame} {n : Note}
    (hserves : b.registry.Serves client)
    (hframes : ∀ s, framesFor s [n] = if client.session = s ∧ (b.trySend client.ext frame).isSome
      then [frame] else [])
    (hpackets : packets [n] = [])
    (hfits : (b.trySend client.ext frame).isSome = b.roomBehind [] client.session → b.Fits [] n) :
    Fed [n] b ((b.trySend client.ext frame).getD b) := by
  have hroom : (b.trySend client.ext frame).isSome = b.roomBehind [] client.session := by
    rw [roomBehind_nil, isSome_trySend, reaches_of_serves hserves]
  refine ⟨fun s => ?_, ?_, lawful_singleton (hfits hroom)⟩
  · rw [hframes]
    cases hs : b.trySend client.ext frame with
    | none => simp
    | some sent => simpa using queue?_of_trySend hserves hs s
  · rw [hpackets, BoundedQueue.fed_nil]
    cases hs : b.trySend client.ext frame with
    | none => rfl
    | some sent => exact (carried_of_trySend hs).injected

/-- Handing a chain over feeds its frame to the queue of the client, or tells that there was no
room. -/
theorem fed_handed {c : Chain} {client : Client} (hserves : b.registry.Serves client)
    (hblocking : client.interest.isBlocking = true) :
    Fed [.handed c client (b.trySend client.ext (c.frameFor client)).isSome] b
      ((b.trySend client.ext (c.frameFor client)).getD b) := by
  refine .frame hserves (fun s => ?_) ?_ fun hroom => ⟨hblocking, hroom⟩
  · cases (b.trySend client.ext (c.frameFor client)).isSome with
    | false => simp [framesFor, Note.frame?]
    | true => by_cases hs : client.session = s <;> simp [framesFor, Note.frame?, hs]
  · simp [packets, Note.packet?]

/-- So does a copy for an observer. -/
theorem fed_copied {client : Client} (hserves : b.registry.Serves client)
    (hobserves : client.interest.isBlocking = false) (frame : Frame) :
    Fed [.copied client frame (b.trySend client.ext frame).isSome] b
      ((b.trySend client.ext frame).getD b) := by
  refine .frame hserves (fun s => ?_) ?_ fun hroom => ⟨hobserves, hroom⟩
  · cases (b.trySend client.ext frame).isSome with
    | false => simp [framesFor, Note.frame?]
    | true => by_cases hs : client.session = s <;> simp [framesFor, Note.frame?, hs]
  · simp [packets, Note.packet?]

/-- The same for one after another, as long as the registry stays. -/
theorem fed_foldNotes {α : Type} {f : Broker → α → Broker} {notes : Broker → α → List Note}
    {xs : List α} (hf : ∀ x ∈ xs, ∀ b', b'.registry = b.registry →
      Fed (notes b' x) b' (f b' x) ∧ (f b' x).registry = b'.registry) :
    Fed (foldNotes f notes b xs) b (xs.foldl f b) := by
  induction xs generalizing b with
  | nil => exact Fed.refl b
  | cons x xs ih =>
      obtain ⟨hfirst, hregistry⟩ := hf x List.mem_cons_self b rfl
      refine hfirst.trans (ih fun y hy b' hb' => ?_)
      exact hf y (List.mem_cons_of_mem x hy) b' (hb'.trans hregistry)

/-! ## chains -/

theorem links_conclude (b : Broker) (a : ActiveChain) (o : Outcome) :
    (b.conclude a o).links = b.links := by
  unfold conclude
  split
  · rfl
  · rfl

/-- An outcome feeds nothing. -/
theorem fed_conclude (b : Broker) (a : ActiveChain) (o : Outcome) :
    Fed [.ended a.chain o] b (b.conclude a o) :=
  .still (by simp [Note.feeds]) (links_conclude b a o) (carried_conclude b a o).injected

/-- Carrying a chain on feeds what its notes tell, one hand-over after another. -/
theorem fed_drive {a : ActiveChain} {step : Step} (hb : b.registry.Sound)
    (hgoes : a.chain.GoesTo b.registry step) : Fed (b.driveNotes a step) b (b.drive a step) := by
  induction b, a, step using drive.induct with
  | case1 b a => rw [drive, driveNotes]; exact fed_conclude b a _
  | case2 b a => rw [drive, driveNotes]; exact fed_conclude b a _
  | case3 b a client sent hs =>
      rw [drive, driveNotes, hs]
      obtain ⟨_, hblocking, hserves, _⟩ := hgoes client rfl
      have hsent := fed_handed (c := a.chain) hserves hblocking
      rw [hs] at hsent
      exact hsent.before rfl rfl
  | case4 b a client hs next ih =>
      obtain ⟨_, hblocking, hserves, _⟩ := hgoes client rfl
      have hmissed := fed_handed (c := a.chain) hserves hblocking
      have hrest := ih hb (Chain.goesTo_advance hb _ _ _)
      have hdirected : Fed [.directed a.chain .disconnect b.settings.onDisconnect.directive] b
          (b.count .disconnectFallbacks []) := .still (by simp [Note.feeds]) rfl rfl
      rw [hs] at hmissed
      rw [drive, driveNotes, hs]
      exact hmissed.trans (hdirected.trans hrest)

theorem fed_apply (hb : b.registry.Sound) (id : UInt64) (cause : Cause) (d : Directive) :
    Fed (b.applyNotes id cause d) b (b.apply id d) := by
  unfold applyNotes Broker.apply
  cases b.chain? id with
  | none => exact Fed.refl b
  | some a =>
      have hdirected : Fed [.directed a.chain cause d] b b := .still (by simp [Note.feeds]) rfl rfl
      exact hdirected.trans (fed_drive hb (Chain.goesTo_advance hb _ _ _))

theorem fed_expire (hb : b.registry.Sound) (id : UInt64) :
    Fed (b.expireNotes id) b (b.expire id) := by
  cases b.judged id with
  | timely _ hstate hnotes => rw [hstate, hnotes]; exact Fed.refl b
  | late _ _ hstate hnotes =>
      rw [hstate, hnotes]
      exact (fed_apply (b := b.count .hopTimeouts []) hb id .timeout _).behind rfl rfl

theorem fed_giveUp (hb : b.registry.Sound) (id : UInt64) :
    Fed (b.giveUpNotes id) b (b.giveUp id) :=
  (fed_apply (b := b.count .disconnectFallbacks []) hb id .disconnect _).behind rfl rfl

/-! ## extensions -/

theorem fed_release (hb : b.registry.Sound) (ext : String) (session : Nat) :
    Fed (b.releaseNotes ext session) b (b.release ext session) := by
  refine (fed_foldNotes (b := b.forgetSession ext session) fun id _ b' hb' => ?_).behind rfl rfl
  exact ⟨fed_giveUp (by rw [hb']; exact hb) id, (carried_giveUp b' id).registry⟩

/-- The broker whose queues an event feeds: a new session has its queue at once. -/
def readied (b : Broker) : Event → Broker
  | .register ext interests capacity => b.enrolled ext interests capacity
  | _ => b

/-- A registration feeds the state in which the new session has its queue already. -/
theorem fed_register (hb : b.registry.Sound) (ext : String) (is : List Interest) (capacity : Nat) :
    Fed (b.registerNotes ext is capacity) (b.enrolled ext is capacity)
      (b.register ext is capacity) := by
  unfold registerNotes Broker.register
  cases b.registry.get? ext with
  | none => exact .still (by simp) rfl rfl
  | some old => exact fed_release (b := b.enrolled ext is capacity) (hb.register ext is) _ _

/-- Taking an extension away feeds what giving up its chains tells. -/
theorem fed_removed (found : Option (Registration × Registry))
    (hfound : ∀ old r, found = some (old, r) → r.Sound) :
    Fed (b.removedNotes found) b (b.removed found) := by
  cases found with
  | none => exact Fed.refl b
  | some p =>
      obtain ⟨old, r⟩ := p
      let left : Broker := { b with registry := r }
      exact (fed_release (b := left.countConnected (-1)) (hfound old r rfl) _ _).behind rfl rfl

/-- A registry is sound behind the removal of an extension. -/
theorem sound_of_unregister? {r : Registry} (hr : r.Sound) {ext : String} {old : Registration}
    {r' : Registry} (h : r.unregister? ext = some (old, r')) : r'.Sound := by
  obtain ⟨_, _, hold⟩ := Option.map_eq_some_iff.mp h
  cases hold
  exact hr.remove ext

theorem sound_of_unregisterSession? {r : Registry} (hr : r.Sound) {ext : String} {session : Nat}
    {old : Registration} {r' : Registry} (h : r.unregisterSession? ext session = some (old, r')) :
    r'.Sound := by
  unfold Registry.unregisterSession? at h
  split at h
  · exact sound_of_unregister? hr h
  · cases h

/-! ## packets -/

/-- One observer is fed its copy. -/
theorem fed_notify {client : Client} (hserves : b.registry.Serves client)
    (hobserves : client.interest.isBlocking = false) (bytes : Bytes) (direction : Direction)
    (flags : UInt32) :
    Fed (b.notifyNotes bytes direction flags client) b (b.notify bytes direction flags client) := by
  have hcopied := fed_copied (b := b.drawn) hserves hobserves
    (b.copyFrame bytes direction flags client)
  have hgiven : Fed (b.notifyNotes bytes direction flags client) b
      ((b.drawn.trySend client.ext (b.copyFrame bytes direction flags client)).getD b.drawn) :=
    hcopied.behind rfl rfl
  unfold notify
  cases hs : b.drawn.trySend client.ext (b.copyFrame bytes direction flags client) with
  | none =>
      rw [hs] at hgiven
      exact hgiven
  | some sent =>
      rw [hs] at hgiven
      exact hgiven.before rfl rfl

/-- All observers of a packet are fed theirs. -/
theorem fed_copyNotes (hb : b.registry.Sound) (bytes : Bytes) (packet : Packet)
    (direction : Direction) (flags : UInt32) :
    Fed (b.copyNotes bytes direction flags (b.observersOf packet direction)) b
      (b.copied bytes packet direction flags) := by
  refine fed_foldNotes fun c hc b' hb' => ⟨?_, (told_notify _ _ _ _ _).registry⟩
  obtain ⟨hmatches, hobserves⟩ := mem_observersOf hc
  refine fed_notify ?_ hobserves bytes direction flags
  rw [hb']
  exact hb.serves_of_mem_matching hmatches

/-- A chain that starts feeds its first holder, or those behind it as long as there is no room. -/
theorem fed_startChain (hb : b.registry.Sound) (bytes : Bytes) (packet : Packet)
    (direction : Direction) (flags : UInt32) {candidates : List Client}
    (h : ∀ c ∈ candidates, b.registry.Serves c) :
    Fed (b.startNotes bytes packet direction flags candidates) b
      (b.startChain bytes packet direction flags candidates) := by
  let c : Chain := { id := b.freshId, bytes, packet, direction, flags }
  let a : ActiveChain := ⟨(c.nextFrom candidates).2, true, b.now, b.now⟩
  have hstarted : Fed [.started c] b ((b.drawn.addChain a).count .chainsStarted []) :=
    .still (by simp [Note.feeds]) rfl rfl
  exact hstarted.trans (fed_drive (a := a) hb (Chain.goesTo_nextFrom c h))

/-- A packet feeds its observers first and then the holder of its chain. -/
theorem fed_submit (hb : b.registry.Sound) (bytes : Bytes) (direction : Direction)
    (flags : UInt32) :
    Fed (b.submitNotes bytes direction flags) b (b.submit bytes direction flags).2 := by
  cases b.received bytes direction flags with
  | refused _ hresult hnotes =>
      rw [hresult, hnotes]
      exact .still (by simp) rfl rfl
  | @passes packet _ _ hresult hnotes =>
      rw [hresult, hnotes]
      exact fed_copyNotes hb bytes packet direction flags
  | @starts packet _ _ hresult hnotes =>
      have hregistry := (told_copied b bytes packet direction flags).registry
      rw [hresult, hnotes]
      refine (fed_copyNotes hb bytes packet direction flags).trans
        (fed_startChain (by rw [hregistry]; exact hb) bytes packet direction flags fun c hc => ?_)
      rw [hregistry]
      exact hb.serves_of_mem_matching (mem_candidates hc).1

/-- A caller that looks feeds what the judgement of the hop tells. -/
theorem fed_poll (hb : b.registry.Sound) (id : UInt64) :
    Fed (b.expireNotes id) b (b.poll id).2 := by
  have hjudged := fed_expire hb id
  cases snd_poll b id with
  | inl h => rw [h]; exact hjudged
  | inr h => rw [h]; exact hjudged.before rfl rfl

/-- A packet gets on the outbound path if and only if it has room, and is told of then. -/
theorem fed_enqueue (b : Broker) (bytes : Bytes) (direction : Direction) (flags : UInt32)
    (source : String) :
    Fed (b.enqueueNotes bytes direction flags source) b
      (b.enqueue bytes direction flags source).2 := by
  unfold enqueueNotes Broker.enqueue
  dsimp only
  rw [BoundedQueue.push?_eq]
  cases hroom : b.injected.hasRoom with
  | false => exact .still (by simp) rfl rfl
  | true =>
      constructor
      · intro s
        simp only [↓reduceIte, Option.isSome_some, framesFor, List.filterMap_cons, Note.frame?,
          List.filterMap_nil, BoundedQueue.fed_nil, Option.map_id']
        rfl
      · rfl
      · have hfits : b.Fits [] (.injected ⟨b.freshId, bytes, direction, flags, 0⟩ source) := by
          simpa [Fits, packets] using hroom
        exact lawful_singleton hfits

/-- An answer of an observer feeds at most the outbound path. -/
theorem fed_redeem (b : Broker) (c : Correlation) (d : Directive) :
    Fed (b.redeemNotes c d) b (b.redeem c d).2 := by
  have htaken : Fed [.redeemed c d] b
      ((b.dropCorrelation c.packetId).count .directives [("op", d.name)]) :=
    .still (by simp [Note.feeds]) rfl rfl
  unfold redeemNotes Broker.redeem
  cases d with
  | forward packet direction => exact htaken.trans (fed_enqueue _ _ _ _ _)
  | finish packet direction => exact htaken.trans (fed_enqueue _ _ _ _ _)
  | pass => exact htaken
  | cancel => exact htaken

/-- An answer feeds what its notes tell, whichever kind of subscription it is for. -/
theorem fed_respond (hb : b.registry.Sound) (ext : String) (r : Response) :
    Fed (b.respondNotes ext r) b (b.respond ext r).2 := by
  cases b.answered ext r with
  | rejected hresult hnotes => rw [hresult, hnotes]; exact .still (by simp) rfl rfl
  | held _ _ _ _ hresult hnotes =>
      rw [hresult, hnotes]
      have hfed := fed_apply (b := b.count .directives [("op", r.directive.name)]) hb r.packetId
        (.answer ext r.interestId) r.directive
      exact hfed.behind rfl rfl
  | owned _ _ _ _ hresult hnotes => rw [hresult, hnotes]; exact fed_redeem b _ r.directive

/-- An injection feeds the outbound path, or nothing if it is refused. -/
theorem fed_inject (b : Broker) (bytes : Bytes) (direction : Direction) (flags : UInt32) :
    Fed (b.injectNotes bytes direction flags) b (b.inject bytes direction flags).2 := by
  unfold injectNotes Broker.inject decode
  cases Packet.decode b.settings.decodeMode bytes with
  | error e => exact .still (by simp) rfl rfl
  | ok packet => exact fed_enqueue b bytes direction flags "push"

/-! ## housekeeping -/

theorem fed_abandon (b : Broker) (id : UInt64) : Fed [] b (b.abandon id) := by
  unfold abandon
  split
  · exact .still (by simp) rfl rfl
  · exact .still (by simp) rfl rfl

theorem fed_dropAbandoned (b : Broker) (id : UInt64) :
    Fed (b.dropAbandonedNotes id) b (b.dropAbandoned id) := by
  unfold dropAbandonedNotes
  cases b.chain? id with
  | none => exact .still (by simp) rfl rfl
  | some a => exact .still (by simp [Note.feeds]) rfl rfl

/-- Housekeeping feeds nothing while it drops what nobody awaits. -/
theorem fed_prune (b : Broker) : Fed b.pruneNotes b b.prune :=
  (fed_foldNotes (b := b.forgetOld) fun id _ b' _ => ⟨fed_dropAbandoned b' id, rfl⟩).behind rfl rfl

/-- A sweep feeds what the judgement of every hop tells. -/
theorem fed_sweep (hb : b.registry.Sound) : Fed b.sweepNotes b b.sweep.2 := by
  refine (fed_prune b).trans (fed_foldNotes fun id _ b' hb' => ?_)
  refine ⟨fed_expire ?_ id, (carried_expire b' id).registry⟩
  rw [hb', (carried_prune b).registry]
  exact hb

/-! ## every event -/

/-- **Every queue is fed what the journal tells.**  Only what is outside takes. -/
theorem fed_step (hb : b.registry.Sound) (e : Event) (he : ¬e.IsOutside) :
    Fed (b.notes e) (b.readied e) (b.step e) := by
  cases e with
  | register ext is capacity => exact fed_register hb ext is capacity
  | unregister ext => exact fed_removed _ fun _ _ => sound_of_unregister? hb
  | unregisterSession ext session => exact fed_removed _ fun _ _ => sound_of_unregisterSession? hb
  | submit bytes direction flags => exact fed_submit hb bytes direction flags
  | poll id => exact fed_poll hb id
  | expire id => exact fed_expire hb id
  | abandon id => exact fed_abandon b id
  | respond ext r => exact fed_respond hb ext r
  | inject bytes direction flags => exact fed_inject b bytes direction flags
  | prune => exact fed_prune b
  | sweep => exact fed_sweep hb
  | later | takeFrames | closeLink | takeInjected | closeInjected => exact absurd trivial he

end Broker

end Intercept
