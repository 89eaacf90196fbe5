import Mathlib.Data.Finset.Card
import Intercept.Proofs.Broker.Aside

/-!
# Intercept.Proofs.Broker.Laps

For how long a chain is carried on.

```
b.lap id step       one lap of the loop: the broker behind it and, if it goes on, what happens next
b.laps id n step    the broker behind the loop, if n laps are enough
c.unasked r         the blocking clients of r that c has not visited, by extension and key
step.reach k        how many laps are enough while k of them are unasked
```

A lap whose frame cannot be queued puts the fallback in the place of the
answer, which finds the clients anew.  What counts down is who is unasked:
whoever the fallback finds is one of them, and is visited with it, while the
registry stays as it is (`Chain.reach_advance_lt`).

The laps look the chain up and keep it in the table, where `drive` hands it
from one to the next; `drive_setChain` says that this is the same.
-/

namespace Intercept

/-! ## who is unasked -/

namespace Chain

variable {c : Chain} {client : Client} {r : Registry}

/-- The clients that a chain may still ask, as it tells them apart. -/
def unasked (c : Chain) (r : Registry) : Finset (String × InterestKey) :=
  ((r.clients.filter c.mayAsk).map Client.key).toFinset

/-- They are the blocking clients that it has not visited. -/
theorem mem_unasked {k : String × InterestKey} : k ∈ c.unasked r ↔
    (∃ client ∈ r.clients, client.interest.isBlocking = true ∧ client.key = k) ∧ k ∉ c.visited := by
  simp only [unasked, List.mem_toFinset, List.mem_map, List.mem_filter, mayAsk_iff]
  constructor
  · rintro ⟨client, ⟨hclient, hblocking, hnew⟩, rfl⟩
    exact ⟨⟨client, hclient, hblocking, rfl⟩, hnew⟩
  · rintro ⟨⟨client, hclient, hblocking, rfl⟩, hnew⟩
    exact ⟨client, ⟨hclient, hblocking, hnew⟩, rfl⟩

/-- Who has been visited is all that matters. -/
theorem unasked_congr {c' : Chain} (h : c'.visited = c.visited) : c'.unasked r = c.unasked r := by
  ext k
  rw [mem_unasked, mem_unasked, h]

/-- One who may be asked is unasked, and is not any more once visited. -/
theorem card_unasked_visit_lt (hclient : client ∈ r.clients) (hask : c.mayAsk client = true) :
    ((c.visit client).unasked r).card < (c.unasked r).card := by
  obtain ⟨hblocking, hnew⟩ := (mayAsk_iff c client).mp hask
  refine Finset.card_lt_card (Finset.ssubset_iff_of_subset ?_ |>.mpr ⟨client.key, ?_, ?_⟩)
  · intro k hk
    obtain ⟨hmem, hk⟩ := mem_unasked.mp hk
    exact mem_unasked.mpr ⟨hmem, fun hold => hk (List.mem_append_left _ hold)⟩
  · exact mem_unasked.mpr ⟨⟨client, hclient, hblocking, rfl⟩, hnew⟩
  · intro hk
    exact (mem_unasked.mp hk).2 (List.mem_append_right _ List.mem_cons_self)

end Chain

/-- How many laps are enough while so many clients are unasked. -/
def Step.reach (k : Nat) : Step → Nat
  | .dispatch _ => k + 2
  | .finished | .cancelled => 1

theorem Step.reach_pos (k : Nat) (step : Step) : 0 < step.reach k := by
  cases step with
  | dispatch _ => exact Nat.succ_pos _
  | finished | cancelled => exact Nat.one_pos

theorem Step.reach_le (k : Nat) (step : Step) : step.reach k ≤ k + 2 := by
  cases step with
  | dispatch _ => exact Nat.le_refl _
  | finished | cancelled => exact Nat.succ_le_succ (Nat.zero_le _)

/-- **Whatever takes the place of an answer shortens the way.** -/
theorem Chain.reach_advance_lt (c : Chain) (r : Registry) (mode : DecodeMode) (d : Directive)
    (client : Client) : (c.advance r mode d).1.reach ((c.advance r mode d).2.unasked r).card <
      (Step.dispatch client).reach (c.unasked r).card := by
  obtain ⟨next, hmatch, hask, h⟩ | h | h := advance_cases c r mode d
  · have hfewer := card_unasked_visit_lt (Registry.mem_matching hmatch).1 hask
    rw [unasked_congr (taking_visited c mode d)] at hfewer
    rw [h]
    exact Nat.add_lt_add_right hfewer 2
  · rw [h]
    exact Nat.succ_lt_succ (Nat.succ_pos _)
  · rw [h]
    exact Nat.succ_lt_succ (Nat.succ_pos _)

/-! ## whom a step names -/

/-- The packet goes to nobody but the holder.  So it does whenever a chain is begun
(`Chain.fits_nextFrom`) or a directive is applied (`Chain.fits_advance`). -/
def Step.Fits (c : Chain) : Step → Prop
  | .dispatch client => c.holder = some client
  | .finished | .cancelled => True

/-- Whom a chain goes to when it begins is its holder. -/
theorem Chain.fits_nextFrom (c : Chain) (candidates : List Client) :
    (c.nextFrom candidates).1.Fits (c.nextFrom candidates).2 := by
  obtain ⟨client, _, _, h⟩ | h := nextFrom_cases c candidates
  · rw [h]; exact rfl
  · rw [h]; exact trivial

/-- So is whom it goes to behind a directive. -/
theorem Chain.fits_advance (c : Chain) (r : Registry) (mode : DecodeMode) (d : Directive) :
    (c.advance r mode d).1.Fits (c.advance r mode d).2 := by
  obtain ⟨client, _, _, h⟩ | h | h := advance_cases c r mode d
  · rw [h]; exact rfl
  · rw [h]; exact trivial
  · rw [h]; exact trivial

namespace Broker

/-! ## the loop -/

/-- One lap of the loop that carries a chain on. -/
def lap (b : Broker) (id : UInt64) (step : Step) : Broker × Option Step :=
  match b.chain? id with
  | none => (b, none)
  | some a =>
    match step with
    | .finished => (b.conclude a (.forward a.chain.outgoing), none)
    | .cancelled => (b.conclude a (.cancelled a.chain.outgoing), none)
    | .dispatch client =>
      match b.trySend client.ext (a.chain.frameFor client) with
      | some sent => (sent.setChain { a with hopStarted := b.now }, none)
      | none =>
        let next := b.advanced a b.settings.onDisconnect.directive
        ((b.count .disconnectFallbacks []).setChain next.1, some next.2)

/-- The broker behind the loop, or `none` if so many laps are not enough. -/
def laps (b : Broker) (id : UInt64) : Nat → Step → Option Broker
  | 0, _ => none
  | n + 1, step =>
    match b.lap id step with
    | (b', none) => some b'
    | (b', some next) => b'.laps id n next

variable {b b' sent : Broker} {a x : ActiveChain} {client : Client} {id : UInt64} {n : Nat}
  {step next : Step}

/-- Without its chain the loop ends at once. -/
theorem lap_of_none (step : Step) (hnone : b.chain? id = none) : b.lap id step = (b, none) := by
  rw [lap, hnone]

theorem lap_finished (ha : b.chain? id = some a) :
    b.lap id .finished = (b.conclude a (.forward a.chain.outgoing), none) := by
  rw [lap, ha]

theorem lap_cancelled (ha : b.chain? id = some a) :
    b.lap id .cancelled = (b.conclude a (.cancelled a.chain.outgoing), none) := by
  rw [lap, ha]

/-- The loop ends with a frame that is queued. -/
theorem lap_of_sent (ha : b.chain? id = some a)
    (hs : b.trySend client.ext (a.chain.frameFor client) = some sent) :
    b.lap id (.dispatch client) = (sent.setChain { a with hopStarted := b.now }, none) := by
  rw [lap, ha]
  simp only [hs]

/-- A frame that cannot be queued has the fallback applied, and the loop goes on. -/
theorem lap_of_missed (ha : b.chain? id = some a)
    (hs : b.trySend client.ext (a.chain.frameFor client) = none) :
    b.lap id (.dispatch client) =
      ((b.count .disconnectFallbacks []).setChain
          (b.advanced a b.settings.onDisconnect.directive).1,
        some (b.advanced a b.settings.onDisconnect.directive).2) := by
  rw [lap, ha]
  simp only [hs]

/-- The loop is over with its last lap. -/
theorem laps_of_last (n : Nat) (h : b.lap id step = (b', none)) :
    b.laps id (n + 1) step = some b' := by
  rw [laps, h]

/-- Otherwise what is left of the laps is for the next step. -/
theorem laps_of_next (n : Nat) (h : b.lap id step = (b', some next)) :
    b.laps id (n + 1) step = b'.laps id n next := by
  rw [laps, h]

/-! ## carrying on, one case after the other -/

/-- The recursion ends where the loop does. -/
theorem drive_of_sent (hs : b.trySend client.ext (a.chain.frameFor client) = some sent) :
    b.drive a (.dispatch client) = sent.setChain { a with hopStarted := b.now } := by
  rw [drive, hs]

/-- It goes on where the loop does, with the chain in its hands. -/
theorem drive_of_missed (hs : b.trySend client.ext (a.chain.frameFor client) = none) :
    b.drive a (.dispatch client) =
      (b.count .disconnectFallbacks []).drive
        (b.advanced a b.settings.onDisconnect.directive).1
        (b.advanced a b.settings.onDisconnect.directive).2 := by
  rw [drive, hs]
  rfl

/-! ## a chain that is kept in the table -/

theorem chain?_setChain_of_some (hx : b.chain? a.chain.id = some x) :
    (b.setChain a).chain? a.chain.id = some a := by
  rw [chain?_setChain_self, hx]
  rfl

/-- Of two entries for a chain the later one counts. -/
theorem setChain_setChain (b : Broker) (h : x.chain.id = a.chain.id) :
    (b.setChain x).setChain a = b.setChain a := by
  simp only [setChain, List.map_map]
  congr 1
  refine List.map_congr_left fun y _ => ?_
  by_cases hy : y.chain.id = a.chain.id
  · simp [hy, h]
  · simp [hy, h]

theorem dropChain_setChain (b : Broker) (h : x.chain.id = id) :
    (b.setChain x).dropChain id = b.dropChain id := by
  simp only [setChain, dropChain]
  congr 1
  induction b.chains with
  | nil => rfl
  | cons y ys ih =>
      by_cases hy : y.chain.id = id
      · simpa [hy, h] using ih
      · simpa [hy, h] using ih

/-- An outcome does not depend on the entry that it ends. -/
theorem conclude_setChain (b : Broker) (h : x.chain.id = a.chain.id) (o : Outcome) :
    (b.setChain x).conclude a o = b.conclude a o := by
  unfold conclude
  rw [dropChain_setChain b h]
  rfl

theorem trySend_setChain (b : Broker) (x : ActiveChain) (ext : String) (frame : Frame) :
    (b.setChain x).trySend ext frame = (b.trySend ext frame).map (·.setChain x) := by
  unfold trySend
  rw [show (b.setChain x).link? ext = b.link? ext from rfl]
  cases b.link? ext with
  | none => rfl
  | some link =>
      cases hq : link.queue.push? frame with
      | none => simp [hq]
      | some queue => simp [hq, mapQueue, setChain]

/-- What stands in the table for a chain that is being carried on does not matter. -/
theorem drive_setChain (b : Broker) (step : Step) (h : x.chain.id = a.chain.id) :
    (b.setChain x).drive a step = b.drive a step := by
  induction b, a, step using drive.induct with
  | case1 b a => rw [drive, drive, conclude_setChain b h]
  | case2 b a => rw [drive, drive, conclude_setChain b h]
  | case3 b a client sent hs =>
      rw [drive, drive, trySend_setChain, hs]
      exact setChain_setChain sent h
  | case4 b a client hs next ih =>
      have hid : next.2.id = a.chain.id := Chain.advance_id _ _ _ _
      rw [drive, drive, trySend_setChain, hs]
      exact ih (h.trans hid.symm)

/-! ## how many laps are enough -/

/-- Laps, as many as are enough, come to what `drive` comes to. -/
theorem laps_eq_drive (ha : b.chain? a.chain.id = some a)
    (hn : step.reach (a.chain.unasked b.registry).card ≤ n) :
    b.laps a.chain.id n step = some (b.drive a step) := by
  induction n generalizing b a step with
  | zero => exact absurd hn (Nat.not_le_of_gt (step.reach_pos _))
  | succ n ih =>
      cases step with
      | finished => rw [laps_of_last n (lap_finished ha), drive]
      | cancelled => rw [laps_of_last n (lap_cancelled ha), drive]
      | dispatch client =>
          cases hs : b.trySend client.ext (a.chain.frameFor client) with
          | some sent => rw [laps_of_last n (lap_of_sent ha hs), drive_of_sent hs]
          | none =>
              let missed := b.count .disconnectFallbacks []
              let after := b.advanced a b.settings.onDisconnect.directive
              have hid : after.1.chain.id = a.chain.id := Chain.advance_id _ _ _ _
              have hin : missed.chain? after.1.chain.id = some a := by
                rw [hid]
                exact ha
              have hless := a.chain.reach_advance_lt b.registry b.settings.decodeMode
                b.settings.onDisconnect.directive client
              have hrest := ih (chain?_setChain_of_some hin)
                (Nat.le_of_lt_succ (Nat.lt_of_lt_of_le hless hn))
              rw [drive_setChain missed _ rfl, hid] at hrest
              rw [laps_of_next n (lap_of_missed ha hs), drive_of_missed hs]
              exact hrest

/-- A directive is applied in time. -/
theorem laps_eq_apply (d : Directive) (ha : b.chain? a.chain.id = some a) :
    (b.setChain (b.advanced a d).1).laps a.chain.id
      (((b.advanced a d).1.chain.unasked b.registry).card + 2) (b.advanced a d).2 =
        some (b.apply a.chain.id d) := by
  have hid : (b.advanced a d).1.chain.id = a.chain.id := Chain.advance_id _ _ _ _
  have hlaps := laps_eq_drive (chain?_setChain_of_some (hid.symm ▸ ha))
    ((b.advanced a d).2.reach_le _)
  rw [drive_setChain b _ rfl, hid] at hlaps
  unfold apply
  rw [ha]
  exact hlaps

/-! ## where a chain is left -/

/-- What is done to the queue of a session is found at the link of its extension. -/
theorem link?_mapQueue {ext : String} {link : Link} (h : b.link? ext = some link)
    (f : BoundedQueue Frame → BoundedQueue Frame) :
    (b.mapQueue link.session f).link? ext = some { link with queue := f link.queue } := by
  obtain ⟨g, hg, hfind⟩ := Option.bind_eq_some_iff.mp h
  have hsession : link.session = g.session := by simpa using List.find?_some hfind
  have hsame : ((fun l : Link => decide (l.session = g.session)) ∘ fun l =>
      if l.session = link.session then { l with queue := f l.queue } else l) =
        fun l => decide (l.session = g.session) := by
    funext l
    simp only [Function.comp_apply]
    split
    · rfl
    · rfl
  refine Option.bind_eq_some_iff.mpr ⟨g, hg, ?_⟩
  rw [mapQueue, List.find?_map, hsame, hfind]
  simp

/-- The chain waits in the table, and its frame has been put at the end of the queue of this
client. -/
def Waits (b b' : Broker) (x : ActiveChain) (client : Client) : Prop :=
  b'.chain? x.chain.id = some x ∧
  ∃ link queue, b.link? client.ext = some link ∧
    link.queue.push? (x.chain.frameFor client) = some queue ∧
    b'.link? client.ext = some { link with queue }

/-- A frame that is queued leaves its chain waiting, and is the last of its queue. -/
theorem waits_of_trySend (ha : (b.chain? a.chain.id).isSome)
    (hs : b.trySend client.ext (a.chain.frameFor client) = some sent) :
    b.Waits (sent.setChain { a with hopStarted := b.now })
      { a with hopStarted := b.now } client := by
  have hin := chain?_setChain_of_trySend (a := { a with hopStarted := b.now }) hs ha
  obtain ⟨link, queue, hlink, hpush, rfl⟩ := trySend_eq_some hs
  exact ⟨hin, link, queue, hlink, hpush, link?_mapQueue hlink fun _ => queue⟩

/-- A chain that is carried on is gone, or waits for the one who has got its frame: its holder, if
the first one to be tried was. -/
theorem left_drive (step : Step) (ha : (b.chain? a.chain.id).isSome) :
    (b.drive a step).chain? a.chain.id = none ∨
      ∃ x client, x.chain.id = a.chain.id ∧ b.Waits (b.drive a step) x client ∧
        (step.Fits a.chain → x.chain.holder = some client) := by
  induction b, a, step using drive.induct with
  | case1 b a => rw [drive]; exact .inl (chain?_conclude b a _)
  | case2 b a => rw [drive]; exact .inl (chain?_conclude b a _)
  | case3 b a client sent hs =>
      rw [drive_of_sent hs]
      exact .inr ⟨{ a with hopStarted := b.now }, client, rfl, waits_of_trySend ha hs,
        fun hfits => hfits⟩
  | case4 b a client hs next ih =>
      have hid : next.2.id = a.chain.id := Chain.advance_id _ _ _ _
      rw [drive_of_missed hs]
      rw [hid] at ih
      obtain hgone | ⟨x, y, hx, hwaits, hholder⟩ := ih ha
      · exact .inl hgone
      · exact .inr ⟨x, y, hx, hwaits, fun _ => hholder (Chain.fits_advance _ _ _ _)⟩

/-- **A chain is carried on for no longer than there is somebody to ask.**  Whatever queues are full
or closed, the loop ends, at most two laps beyond the number of the blocking clients that the chain
has not visited when it begins; the chain then waits for the holder who has got its frame, or is
gone. -/
theorem carried_on_in_time (b : Broker) (id : UInt64) (step : Step) :
    (b.chain? id = none → b.laps id 1 step = some b) ∧
    ∀ a, b.chain? id = some a →
      b.laps id ((a.chain.unasked b.registry).card + 2) step = some (b.drive a step) ∧
      ((b.drive a step).chain? id = none ∨
        ∃ x client, x.chain.id = id ∧ b.Waits (b.drive a step) x client ∧
          (step.Fits a.chain → x.chain.holder = some client)) := by
  refine ⟨fun hnone => ?_, fun a ha => ?_⟩
  · exact laps_of_last 0 (lap_of_none step hnone)
  · obtain ⟨_, rfl⟩ := chain?_eq_some ha
    exact ⟨laps_eq_drive ha (step.reach_le _), left_drive step (by rw [ha]; rfl)⟩

/-- A packet is with the first of three extensions.  It and the second have gone away without a
word, and the third has room for so many frames. -/
def deserted (room : Nat) : Broker :=
  [.register "first" [{ id := 1, kind := .net .genericText }] 4,
    .register "second" [{ id := 1, kind := .net .genericText, priority := -1 }] 4,
    .register "third" [{ id := 1, kind := .net .genericText, priority := -2 }] room,
    .submit [2, 0, 0, 0, 0] .clientToServer 0, .closeLink 1, .closeLink 2].foldl
      Broker.step (.new {})

/-- Tried again, the packet is with the third extension in time.  If that one has no room either, it
takes all the laps there are: two more than there are extensions to visit. -/
theorem carried_on_to_third : ∃ a client, (deserted 1).chain? 1 = some a ∧
    a.chain.holder = some client ∧ (a.chain.unasked (deserted 1).registry).card = 2 ∧
    (deserted 1).laps 1 4 (.dispatch client) = some ((deserted 1).drive a (.dispatch client)) ∧
    (∃ x third, (deserted 1).Waits ((deserted 1).drive a (.dispatch client)) x third ∧
      x.chain.holder = some third) ∧
    (deserted 1).laps 7 1 .finished = some (deserted 1) ∧
    (deserted 0).laps 1 3 (.dispatch client) = none := by
  obtain ⟨a, client, ha, hholder, hcard, hin, hthree⟩ : ∃ a client, (deserted 1).chain? 1 = some a ∧
      a.chain.holder = some client ∧ (a.chain.unasked (deserted 1).registry).card = 2 ∧
      (((deserted 1).drive a (.dispatch client)).chain? 1).isSome = true ∧
      (deserted 0).laps 1 3 (.dispatch client) = none :=
    ⟨_, ⟨"first", { id := 1, kind := .net .genericText }, 1, 1⟩,
      by cbv, by cbv, by cbv, by cbv, by cbv⟩
  have hmissing : (deserted 1).laps 7 1 .finished = some (deserted 1) :=
    ((deserted 1).carried_on_in_time 7 .finished).1 (by cbv)
  obtain ⟨hlaps, hleft⟩ := ((deserted 1).carried_on_in_time 1 (.dispatch client)).2 a ha
  rw [hcard] at hlaps
  obtain hgone | ⟨x, third, _, hwaits, hfits⟩ := hleft
  · rw [hgone] at hin
    cases hin
  · exact ⟨a, client, ha, hholder, hcard, hlaps, ⟨x, third, hwaits, hfits hholder⟩, hmissing,
      hthree⟩

end Broker

end Intercept
