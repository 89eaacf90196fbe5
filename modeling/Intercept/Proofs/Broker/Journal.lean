import Mathlib.Data.List.Induction
import Intercept.Proofs.Broker.Event

/-!
# Intercept.Proofs.Broker.Journal

The journal of a broker: what every event has brought about, in order.

```
Run settings J b      some events lead from the new broker to b, and J is their journal
b.notes e             what the event e adds when it meets b
Lawful admits J       every note of J is admitted by what stands before it
```

The state keeps no history, and most of what there is to say about a chain or
a copy is about its history.  Each function of `notes` follows the function of
the broker whose doings it takes down, case by case and with the same states.
A frame that cannot be queued is noted too, as handed or copied in vain.
-/

namespace Intercept

/-- Why a directive is applied to a chain. -/
inductive Cause where
  /-- An extension answered for one of its interests. -/
  | answer (ext : String) (interestId : UInt32)
  /-- The answer was overdue. -/
  | timeout
  /-- The holder is gone, or the packet could not be queued for it. -/
  | disconnect

/-- One entry of the journal. -/
inductive Note where
  /-- An event begins. -/
  | happened (e : Event)
  /-- A chain is made, before anybody is asked. -/
  | started (c : Chain)
  /-- A directive is applied to a chain. -/
  | directed (c : Chain) (cause : Cause) (d : Directive)
  /-- A chain is handed to a client; whether the frame could be queued. -/
  | handed (c : Chain) (client : Client) (sent : Bool)
  | ended (c : Chain) (outcome : Outcome)
  /-- A chain is dropped because nobody awaits its outcome. -/
  | dropped (c : Chain)
  /-- An observer gets its copy; whether the frame could be queued. -/
  | copied (client : Client) (frame : Frame) (sent : Bool)
  /-- An answer is taken for an observer's copy. -/
  | redeemed (copy : Correlation) (d : Directive)
  /-- A packet is put on the outbound path. -/
  | injected (packet : Outgoing) (source : String)

/-- The chain that a note is about. -/
def Note.chain? : Note → Option Chain
  | started c | directed c .. | handed c .. | ended c _ | dropped c => some c
  | happened _ | copied .. | redeemed .. | injected .. => none

/-- Whether the note is about a copy, or about a packet outside any chain. -/
def Note.isAside : Note → Bool
  | copied .. | redeemed .. | injected .. => true
  | happened _ | started _ | directed .. | handed .. | ended .. | dropped _ => false

/-- What is aside is about no chain. -/
theorem Note.chain?_of_isAside (n : Note) (h : n.isAside = true) : n.chain? = none := by
  cases n with
  | happened | copied | redeemed | injected => rfl
  | started | directed | handed | ended | dropped => cases h

namespace Broker

/-! ## chains -/

/-- What carrying a chain on adds to the journal. -/
def driveNotes (b : Broker) (a : ActiveChain) (step : Step) : List Note :=
  match step with
  | .finished => [.ended a.chain (.forward a.chain.outgoing)]
  | .cancelled => [.ended a.chain (.cancelled a.chain.outgoing)]
  | .dispatch client =>
    match b.trySend client.ext (a.chain.frameFor client) with
    | some _ => [.handed a.chain client true]
    | none =>
      let d := b.settings.onDisconnect.directive
      let next := a.chain.advance b.registry b.settings.decodeMode d
      .handed a.chain client false :: .directed a.chain .disconnect d ::
        (b.count .disconnectFallbacks []).driveNotes { a with chain := next.2 } next.1
termination_by a.chain.patience b.registry step
decreasing_by exact Chain.patience_advance_lt _ _ _ _ (Fallback.directive_eq _)

def applyNotes (b : Broker) (id : UInt64) (cause : Cause) (d : Directive) : List Note :=
  match b.chain? id with
  | some a =>
    let next := a.chain.advance b.registry b.settings.decodeMode d
    .directed a.chain cause d :: b.driveNotes { a with chain := next.2 } next.1
  | none => []

def expireNotes (b : Broker) (id : UInt64) : List Note :=
  match b.chain? id with
  | some a =>
    if b.settings.chainTimeout ≤ b.now - a.hopStarted then
      (b.count .hopTimeouts []).applyNotes id .timeout b.settings.onTimeout.directive
    else []
  | none => []

/-! ## extensions -/

/-- What doing the same for one after another adds to the journal. -/
def foldNotes {α : Type} (f : Broker → α → Broker) (notes : Broker → α → List Note)
    (b : Broker) : List α → List Note
  | [] => []
  | x :: xs => notes b x ++ foldNotes f notes (f b x) xs

def giveUpNotes (b : Broker) (id : UInt64) : List Note :=
  (b.count .disconnectFallbacks []).applyNotes id .disconnect b.settings.onDisconnect.directive

def releaseNotes (b : Broker) (ext : String) (session : Nat) : List Note :=
  foldNotes giveUp giveUpNotes (b.forgetSession ext session) (b.heldBy ext session)

def registerNotes (b : Broker) (ext : String) (interests : List Interest) (capacity : Nat) :
    List Note :=
  match b.registry.get? ext with
  | some old => (b.enrolled ext interests capacity).releaseNotes ext old.session
  | none => []

def removedNotes (b : Broker) : Option (Registration × Registry) → List Note
  | some (old, registry) =>
    let left : Broker := { b with registry }
    (left.countConnected (-1)).releaseNotes old.ext old.session
  | none => []

/-! ## packets -/

def notifyNotes (b : Broker) (bytes : Bytes) (direction : Direction) (flags : UInt32)
    (client : Client) : List Note :=
  let frame := b.copyFrame bytes direction flags client
  [.copied client frame (b.drawn.trySend client.ext frame).isSome]

def startNotes (b : Broker) (bytes : Bytes) (packet : Packet) (direction : Direction)
    (flags : UInt32) (candidates : List Client) : List Note :=
  let c : Chain := { id := b.freshId, bytes, packet, direction, flags }
  let next := c.nextFrom candidates
  let a : ActiveChain := ⟨next.2, true, b.now, b.now⟩
  .started c :: ((b.drawn.addChain a).count .chainsStarted []).driveNotes a next.1

def submitNotes (b : Broker) (bytes : Bytes) (direction : Direction) (flags : UInt32) : List Note :=
  match b.decode bytes with
  | (.error _, _) => []
  | (.ok packet, b) =>
    let clients := b.registry.matching packet direction
    let blocking := clients.filter (·.interest.isBlocking)
    let observers := clients.filter (!·.interest.isBlocking)
    let notified := observers.foldl (fun b c => b.notify bytes direction flags c) b
    let copies := foldNotes (fun b c => b.notify bytes direction flags c)
      (fun b c => b.notifyNotes bytes direction flags c) b observers
    if blocking = [] then copies
    else copies ++ notified.startNotes bytes packet direction flags blocking

/-! ## answers -/

def enqueueNotes (b : Broker) (bytes : Bytes) (direction : Direction) (flags : UInt32)
    (source : String) : List Note :=
  let packet : Outgoing := ⟨b.freshId, bytes, direction, flags, 0⟩
  if (b.injected.push? packet).isSome then [.injected packet source] else []

def redeemNotes (b : Broker) (c : Correlation) (d : Directive) : List Note :=
  let taken := (b.dropCorrelation c.packetId).count .directives [("op", d.name)]
  .redeemed c d ::
    match d with
    | .forward packet direction | .finish packet direction =>
      taken.enqueueNotes packet (direction.orElse c.direction) c.flags "fire_and_forget"
    | .pass | .cancel => []

def respondNotes (b : Broker) (ext : String) (r : Response) : List Note :=
  match b.chain? r.packetId with
  | some a =>
    if !a.chain.holder.any (·.ext = ext) then []
    else if !a.chain.holder.any (·.interest.id = r.interestId) then []
    else
      (b.count .directives [("op", r.directive.name)]).applyNotes r.packetId
        (.answer ext r.interestId) r.directive
  | none =>
    match b.correlation? r.packetId with
    | some c =>
      if c.ext = ext ∧ c.interestId = r.interestId then b.redeemNotes c r.directive else []
    | none => []

def injectNotes (b : Broker) (bytes : Bytes) (direction : Direction) (flags : UInt32) : List Note :=
  match b.decode bytes with
  | (.error _, _) => []
  | (.ok _, b) => b.enqueueNotes bytes direction flags "push"

/-! ## housekeeping -/

def dropAbandonedNotes (b : Broker) (id : UInt64) : List Note :=
  match b.chain? id with
  | some a => [.dropped a.chain]
  | none => []

def pruneNotes (b : Broker) : List Note :=
  foldNotes dropAbandoned dropAbandonedNotes b.forgetOld b.abandoned

def sweepNotes (b : Broker) : List Note :=
  b.pruneNotes ++ foldNotes expire expireNotes b.prune (b.prune.chains.map (·.chain.id))

/-! ## notes that are about no chain -/

/-- A copy for an observer is aside. -/
theorem isAside_notifyNotes (b : Broker) (bytes : Bytes) (direction : Direction) (flags : UInt32)
    (client : Client) : ∀ n ∈ b.notifyNotes bytes direction flags client, n.isAside = true := by
  intro n hn
  rw [notifyNotes, List.mem_singleton] at hn
  rw [hn]
  rfl

theorem isAside_enqueueNotes (b : Broker) (bytes : Bytes) (direction : Direction) (flags : UInt32)
    (source : String) : ∀ n ∈ b.enqueueNotes bytes direction flags source, n.isAside = true := by
  intro n hn
  unfold enqueueNotes at hn
  dsimp only at hn
  split at hn
  · rw [List.mem_singleton] at hn
    rw [hn]
    rfl
  · cases hn

theorem isAside_redeemNotes (b : Broker) (c : Correlation) (d : Directive) :
    ∀ n ∈ b.redeemNotes c d, n.isAside = true := by
  intro n hn
  unfold redeemNotes at hn
  cases List.mem_cons.mp hn with
  | inl hfirst => rw [hfirst]; rfl
  | inr hrest =>
      cases d with
      | forward packet direction => exact isAside_enqueueNotes _ _ _ _ _ n hrest
      | finish packet direction => exact isAside_enqueueNotes _ _ _ _ _ n hrest
      | pass => cases hrest
      | cancel => cases hrest

/-- A copy for an observer is about no chain. -/
theorem chain?_notifyNotes (b : Broker) (bytes : Bytes) (direction : Direction) (flags : UInt32)
    (client : Client) : ∀ n ∈ b.notifyNotes bytes direction flags client, n.chain? = none :=
  fun n hn => n.chain?_of_isAside (isAside_notifyNotes b bytes direction flags client n hn)

theorem chain?_enqueueNotes (b : Broker) (bytes : Bytes) (direction : Direction) (flags : UInt32)
    (source : String) : ∀ n ∈ b.enqueueNotes bytes direction flags source, n.chain? = none :=
  fun n hn => n.chain?_of_isAside (isAside_enqueueNotes b bytes direction flags source n hn)

theorem chain?_redeemNotes (b : Broker) (c : Correlation) (d : Directive) :
    ∀ n ∈ b.redeemNotes c d, n.chain? = none :=
  fun n hn => n.chain?_of_isAside (isAside_redeemNotes b c d n hn)

/-- Whatever is noted while the same is done for one after another is noted for one of them. -/
theorem exists_of_mem_foldNotes {α : Type} {f : Broker → α → Broker}
    {notes : Broker → α → List Note} {b : Broker} {xs : List α} {n : Note}
    (h : n ∈ foldNotes f notes b xs) : ∃ b', ∃ x ∈ xs, n ∈ notes b' x := by
  induction xs generalizing b with
  | nil => cases h
  | cons x xs ih =>
      cases List.mem_append.mp h with
      | inl hfirst => exact ⟨b, x, List.mem_cons_self, hfirst⟩
      | inr hrest =>
          obtain ⟨b', y, hy, hn⟩ := ih hrest
          exact ⟨b', y, List.mem_cons_of_mem x hy, hn⟩

/-- Two lists of things to do add their notes one behind the other. -/
theorem foldNotes_append {α : Type} (f : Broker → α → Broker) (notes : Broker → α → List Note)
    (b : Broker) (xs ys : List α) :
    foldNotes f notes b (xs ++ ys) =
      foldNotes f notes b xs ++ foldNotes f notes (xs.foldl f b) ys := by
  induction xs generalizing b with
  | nil => rfl
  | cons x xs ih =>
      rw [List.cons_append, foldNotes, ih, ← List.append_assoc]
      rfl

theorem foldNotes_map {α β : Type} (f : Broker → α → Broker) (notes : Broker → α → List Note)
    (g : β → α) (b : Broker) (xs : List β) :
    foldNotes f notes b (xs.map g) =
      foldNotes (fun b x => f b (g x)) (fun b x => notes b (g x)) b xs := by
  induction xs generalizing b with
  | nil => rfl
  | cons x xs ih =>
      rw [List.map_cons, foldNotes, ih]
      rfl

/-! ## notes that are about chains -/

/-- Carrying a chain on tells of nothing aside. -/
theorem aside_driveNotes (b : Broker) (a : ActiveChain) (step : Step) :
    ∀ n ∈ b.driveNotes a step, n.isAside = false := by
  induction b, a, step using driveNotes.induct with
  | case1 b a => rw [driveNotes]; simp [Note.isAside]
  | case2 b a => rw [driveNotes]; simp [Note.isAside]
  | case3 b a client sent hs => rw [driveNotes, hs]; simp [Note.isAside]
  | case4 b a client hs d next ih =>
      rw [driveNotes, hs]
      exact List.forall_mem_cons.mpr ⟨rfl, List.forall_mem_cons.mpr ⟨rfl, ih⟩⟩

theorem aside_applyNotes (b : Broker) (id : UInt64) (cause : Cause) (d : Directive) :
    ∀ n ∈ b.applyNotes id cause d, n.isAside = false := by
  unfold applyNotes
  split
  · exact List.forall_mem_cons.mpr ⟨rfl, aside_driveNotes _ _ _⟩
  · exact fun n hn => by cases hn

theorem aside_expireNotes (b : Broker) (id : UInt64) :
    ∀ n ∈ b.expireNotes id, n.isAside = false := by
  unfold expireNotes
  split
  · split
    · exact aside_applyNotes _ _ _ _
    · exact fun n hn => by cases hn
  · exact fun n hn => by cases hn

theorem aside_releaseNotes (b : Broker) (ext : String) (session : Nat) :
    ∀ n ∈ b.releaseNotes ext session, n.isAside = false := by
  intro n hn
  obtain ⟨_, _, _, hn⟩ := exists_of_mem_foldNotes hn
  exact aside_applyNotes _ _ _ _ n hn

theorem aside_registerNotes (b : Broker) (ext : String) (is : List Interest) (capacity : Nat) :
    ∀ n ∈ b.registerNotes ext is capacity, n.isAside = false := by
  unfold registerNotes
  split
  · exact aside_releaseNotes _ _ _
  · exact fun n hn => by cases hn

theorem aside_removedNotes (b : Broker) (found : Option (Registration × Registry)) :
    ∀ n ∈ b.removedNotes found, n.isAside = false := by
  unfold removedNotes
  split
  · exact aside_releaseNotes _ _ _
  · exact fun n hn => by cases hn

theorem aside_pruneNotes (b : Broker) : ∀ n ∈ b.pruneNotes, n.isAside = false := by
  intro n hn
  obtain ⟨b', id, _, hn⟩ := exists_of_mem_foldNotes hn
  unfold dropAbandonedNotes at hn
  split at hn
  · rw [List.mem_singleton.mp hn]
    rfl
  · cases hn

theorem aside_sweepNotes (b : Broker) : ∀ n ∈ b.sweepNotes, n.isAside = false := by
  intro n hn
  cases List.mem_append.mp hn with
  | inl hpruned => exact aside_pruneNotes b n hpruned
  | inr hjudged =>
      obtain ⟨_, _, _, hn⟩ := exists_of_mem_foldNotes hjudged
      exact aside_expireNotes _ _ n hn

theorem aside_startNotes (b : Broker) (bytes : Bytes) (packet : Packet) (direction : Direction)
    (flags : UInt32) (candidates : List Client) :
    ∀ n ∈ b.startNotes bytes packet direction flags candidates, n.isAside = false :=
  List.forall_mem_cons.mpr ⟨rfl, aside_driveNotes _ _ _⟩

/-! ## runs -/

/-- What an event adds to the journal. -/
def notes (b : Broker) : Event → List Note
  | .register ext interests capacity => b.registerNotes ext interests capacity
  | .unregister ext => b.removedNotes (b.registry.unregister? ext)
  | .unregisterSession ext session => b.removedNotes (b.registry.unregisterSession? ext session)
  | .submit bytes direction flags => b.submitNotes bytes direction flags
  | .poll id | .expire id => b.expireNotes id
  | .respond ext r => b.respondNotes ext r
  | .inject bytes direction flags => b.injectNotes bytes direction flags
  | .prune => b.pruneNotes
  | .sweep => b.sweepNotes
  | .abandon _ | .later _ | .takeFrames .. | .closeLink _ | .takeInjected _ | .closeInjected => []

/-- Copies, and packets outside any chain, come with packets that are handed in, answers and packets
that an extension sends of its own. -/
theorem aside_notes {b : Broker} {e : Event} {n : Note} (hn : n ∈ b.notes e)
    (haside : n.isAside = true) :
    (∃ bytes direction flags, e = .submit bytes direction flags) ∨ (∃ ext r, e = .respond ext r) ∨
      ∃ bytes direction flags, e = .inject bytes direction flags := by
  have hnot : ∀ N : List Note, (∀ n ∈ N, n.isAside = false) → n ∉ N := by
    intro N hN hmem
    rw [hN n hmem] at haside
    cases haside
  cases e with
  | submit bytes direction flags => exact .inl ⟨bytes, direction, flags, rfl⟩
  | respond ext r => exact .inr (.inl ⟨ext, r, rfl⟩)
  | inject bytes direction flags => exact .inr (.inr ⟨bytes, direction, flags, rfl⟩)
  | register => exact absurd hn (hnot _ (aside_registerNotes _ _ _ _))
  | unregister => exact absurd hn (hnot _ (aside_removedNotes _ _))
  | unregisterSession => exact absurd hn (hnot _ (aside_removedNotes _ _))
  | poll => exact absurd hn (hnot _ (aside_expireNotes _ _))
  | expire => exact absurd hn (hnot _ (aside_expireNotes _ _))
  | prune => exact absurd hn (hnot _ (aside_pruneNotes _))
  | sweep => exact absurd hn (hnot _ (aside_sweepNotes _))
  | abandon | later | takeFrames | closeLink | takeInjected | closeInjected => cases hn

/-- The runs of a broker, each with its journal. -/
inductive Run (settings : BrokerSettings) : List Note → Broker → Prop where
  | new : Run settings [] (.new settings)
  | step {J : List Note} {b : Broker} (e : Event) :
      Run settings J b → Run settings (J ++ .happened e :: b.notes e) (b.step e)
  | reordered {J : List Note} {b : Broker} {chains : List ActiveChain} :
      Run settings J b → chains.Perm b.chains → Run settings J { b with chains }

/-- The journal of some events, one after another. -/
def journal (b : Broker) : List Event → List Note
  | [] => []
  | e :: es => .happened e :: b.notes e ++ (b.step e).journal es

/-- A run goes on with any events, and its journal with theirs. -/
theorem Run.foldl {settings : BrokerSettings} {J : List Note} {b : Broker} (h : Run settings J b)
    (es : List Event) : Run settings (J ++ b.journal es) (es.foldl Broker.step b) := by
  induction es generalizing J b with
  | nil =>
      rw [journal, List.append_nil]
      exact h
  | cons e es ih =>
      have hrest := ih (h.step e)
      rw [List.append_assoc] at hrest
      exact hrest

/-- A run leads to a state that can be reached. -/
theorem Run.reachable {settings : BrokerSettings} {J : List Note} {b : Broker}
    (h : Run settings J b) : Reachable settings b := by
  induction h with
  | new => exact .new
  | step e _ ih => exact ih.step e
  | reordered _ hp ih => exact ih.reordered hp

/-- Every state that can be reached has a journal. -/
theorem Reachable.exists_run {settings : BrokerSettings} {b : Broker} (h : Reachable settings b) :
    ∃ J, Run settings J b := by
  induction h with
  | new => exact ⟨[], .new⟩
  | step e _ ih =>
      obtain ⟨J, hJ⟩ := ih
      exact ⟨_, hJ.step e⟩
  | reordered _ hp ih =>
      obtain ⟨J, hJ⟩ := ih
      exact ⟨J, hJ.reordered hp⟩

end Broker

/-! ## laws of journals -/

/-- Every note is admitted by what stands before it. -/
def Lawful (admits : List Note → Note → Prop) (J : List Note) : Prop :=
  ∀ p n, p ++ [n] <+: J → admits p n

theorem lawful_nil (admits : List Note → Note → Prop) : Lawful admits [] := by
  intro p n h
  simp at h

/-- Notes that are admitted behind anything are lawful. -/
theorem lawful_of_forall {admits : List Note → Note → Prop} {N : List Note}
    (h : ∀ p, ∀ n ∈ N, admits p n) : Lawful admits N :=
  fun p n hp => h p n (hp.subset (List.mem_append_right p List.mem_cons_self))

/-- A journal is lawful if it is so up to its last note, and admits that. -/
theorem lawful_concat {admits : List Note → Note → Prop} {J : List Note} {n : Note} :
    Lawful admits (J ++ [n]) ↔ Lawful admits J ∧ admits J n := by
  constructor
  · intro h
    exact ⟨fun p m hp => h p m (hp.trans (List.prefix_append J [n])), h J n (List.prefix_refl _)⟩
  · rintro ⟨hJ, hn⟩ p m hp
    rw [List.prefix_concat_iff] at hp
    cases hp with
    | inl heq =>
        obtain ⟨rfl, hm⟩ := List.append_inj' heq rfl
        cases hm
        exact hn
    | inr hp => exact hJ p m hp

theorem lawful_singleton {admits : List Note → Note → Prop} {n : Note} (h : admits [] n) :
    Lawful admits [n] :=
  lawful_concat (J := []).mpr ⟨lawful_nil _, h⟩

/-- What comes behind is judged by all that stands before it. -/
theorem lawful_append {admits : List Note → Note → Prop} {N M : List Note} :
    Lawful admits (N ++ M) ↔ Lawful admits N ∧ Lawful (fun p => admits (N ++ p)) M := by
  induction M using List.reverseRecOn with
  | nil =>
      rw [List.append_nil]
      exact (and_iff_left (lawful_nil _)).symm
  | append_singleton M m ih => rw [← List.append_assoc, lawful_concat, ih, lawful_concat, and_assoc]

/-- Notes that are admitted after anything. -/
theorem Lawful.append {admits : List Note → Note → Prop} {J N : List Note} (hJ : Lawful admits J)
    (hN : ∀ p, ∀ n ∈ N, admits p n) : Lawful admits (J ++ N) := by
  induction N generalizing J with
  | nil => rwa [List.append_nil]
  | cons n ns ih =>
      rw [List.append_cons]
      exact ih (lawful_concat.mpr ⟨hJ, hN J n List.mem_cons_self⟩) fun p m hm =>
        hN p m (List.mem_cons_of_mem n hm)

/-- A lawful journal is lawful up to each of its notes. -/
theorem Lawful.take {admits : List Note → Note → Prop} {J p : List Note} (h : Lawful admits J)
    (hp : p <+: J) : Lawful admits p :=
  fun q n hq => h q n (hq.trans hp)

end Intercept
