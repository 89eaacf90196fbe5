import Intercept.Proofs.Broker.Operation
import Intercept.Proofs.Broker.Thread

/-!
# Intercept.Proofs.Broker.Standing

How a chain stands, and that the journal alone moves it.

```
b.standing id          what b has of the chain id: its hop, and outcomes kept for its caller
s.through id now N     where the notes N, told at the time now, bring a chain that stands as s
Turn b N b'            the notes N bring every chain from where it stands at b to that at b'
```

An event at which no caller looks or goes away and no time passes is a turn
(`turn_step`), so what it does to a caller or to the clock of a hop is read off
its notes, whatever functions of the broker they come from.
-/

namespace Intercept

/-! ## standings -/

/-- What the table says of a chain that waits. -/
structure Hop where
  /-- Whether somebody waits for the outcome. -/
  awaited : Bool
  /-- When the packet went to the holder. -/
  since : Nat

/-- How a chain stands. -/
structure Standing where
  hop : Option Hop := none
  /-- The outcomes that its caller has not taken. -/
  kept : List Outcome := []

namespace Standing

/-- How the chain stands behind a note about it. -/
def after (now : Nat) (s : Standing) : Note → Standing
  | .started _ => { s with hop := some ⟨true, now⟩ }
  | .handed _ _ true => { s with hop := s.hop.map fun h => { h with since := now } }
  | .ended _ outcome =>
    ⟨none, if s.hop.any (·.awaited) then s.kept ++ [outcome] else s.kept⟩
  | .dropped _ => { s with hop := none }
  | .handed _ _ false | .directed .. | .happened _ | .copied .. | .redeemed .. | .injected .. => s

/-- How the chain with this id stands behind some notes. -/
def through (id : UInt64) (now : Nat) (s : Standing) (N : List Note) : Standing :=
  N.foldl (fun s n => if n.concerns id then s.after now n else s) s

/-- What has to be so for a note to be told of the chain: it is in the table, nobody awaits it if it
is dropped, and its hop has lasted for long enough if it is too late for an answer. -/
def Admits (timeout now : Nat) (s : Standing) : Note → Prop
  | .directed _ .timeout _ => ∃ h, s.hop = some h ∧ timeout ≤ now - h.since
  | .directed .. | .handed .. | .ended .. => s.hop.isSome
  | .dropped _ => ∃ h, s.hop = some h ∧ h.awaited = false
  | .started _ | .happened _ | .copied .. | .redeemed .. | .injected .. => True

variable {id : UInt64} {now : Nat} {s : Standing}

@[simp] theorem through_nil : s.through id now [] = s := rfl

theorem through_append (N M : List Note) :
    s.through id now (N ++ M) = (s.through id now N).through id now M := List.foldl_append

/-- The last note moves the standing of the chain that it is about, and no other. -/
theorem through_concat (N : List Note) (n : Note) : s.through id now (N ++ [n]) =
    if n.concerns id then (s.through id now N).after now n else s.through id now N := by
  rw [through_append]
  rfl

theorem through_cons (n : Note) (N : List Note) : s.through id now (n :: N) =
    (if n.concerns id then s.after now n else s).through id now N := rfl

/-- Notes about other chains leave a standing alone. -/
theorem through_of_silent {N : List Note} (h : ∀ n ∈ N, n.concerns id = false) :
    s.through id now N = s := by
  induction N with
  | nil => rfl
  | cons n ns ih =>
      rw [through_cons, h n List.mem_cons_self]
      exact ih fun m hm => h m (List.mem_cons_of_mem n hm)

/-- Only the notes about the chain matter. -/
theorem through_filter (N : List Note) :
    s.through id now (N.filter (·.concerns id)) = s.through id now N := by
  induction N generalizing s with
  | nil => rfl
  | cons n ns ih =>
      rw [through_cons]
      cases hn : n.concerns id with
      | false =>
          rw [List.filter_cons_of_neg (by simp [hn]), ih]
          rfl
      | true =>
          rw [List.filter_cons_of_pos (by simpa using hn), through_cons, hn, ih]

end Standing

/-- Callers look and go away, and time passes, between turns. -/
def Event.IsTurn : Event → Prop
  | poll _ | abandon _ | later _ => False
  | _ => True

namespace Broker

/-- The outcomes that are kept for the caller of a chain. -/
def kept (b : Broker) (id : UInt64) : List Outcome := (b.outcomes.filter (·.1 = id)).map (·.2)

/-- How a chain stands at the broker. -/
def standing (b : Broker) (id : UInt64) : Standing :=
  ⟨(b.chain? id).map fun a => ⟨a.awaited, a.hopStarted⟩, b.kept id⟩

/-- The note may be told behind others, the chains having stood as they do at the broker. -/
def AdmitsHere (b : Broker) (before : List Note) (n : Note) : Prop :=
  ∀ c, n.chain? = some c →
    ((b.standing c.id).through c.id b.now before).Admits b.settings.chainTimeout b.now n

/-- The notes bring every chain from where it stands to where it stands then. -/
structure Turn (b : Broker) (N : List Note) (b' : Broker) : Prop where
  settings : b'.settings = b.settings
  now : b'.now = b.now
  standing : ∀ id, b'.standing id = (b.standing id).through id b.now N
  lawful : Lawful b.AdmitsHere N
  /-- No other event happens meanwhile. -/
  alone : ∀ e, .happened e ∉ N

variable {b b' b'' : Broker} {N M : List Note} {a : ActiveChain} {id i : UInt64}

/-! ## what the changes of the state do to a standing -/

/-- A chain stands as before while its entry and the outcomes are the same. -/
theorem standing_eq (hchain : b'.chain? id = b.chain? id) (houtcomes : b'.outcomes = b.outcomes) :
    b'.standing id = b.standing id := by
  rw [standing, standing, hchain, kept, kept, houtcomes]

/-- A chain in the table stands as its entry says. -/
theorem standing_of_some (ha : b.chain? id = some a) :
    b.standing id = ⟨some ⟨a.awaited, a.hopStarted⟩, b.kept id⟩ := by
  rw [standing, ha]
  rfl

/-- A chain that is not in the table has only the outcomes that are kept for it. -/
theorem standing_of_none (hnone : b.chain? id = none) : b.standing id = ⟨none, b.kept id⟩ := by
  rw [standing, hnone]
  rfl

theorem chain?_setChain_self (b : Broker) (a : ActiveChain) :
    (b.setChain a).chain? a.chain.id = (b.chain? a.chain.id).map fun _ => a := by
  cases hc : b.chain? a.chain.id with
  | none =>
      rw [Option.map_none, chain?, List.find?_eq_none]
      intro x hx hid
      have hid : x.chain.id = a.chain.id := by simpa using hid
      have hmem : x.chain.id ∈ (b.setChain a).chains.map (·.chain.id) := List.mem_map_of_mem hx
      rw [ids_setChain, hid] at hmem
      obtain ⟨y, hy, hyid⟩ := List.mem_map.mp hmem
      exact chain?_eq_none hc y hy hyid
  | some x =>
      obtain ⟨y, hy⟩ := Option.isSome_iff_exists.mp (isSome_chain?_setChain (by rw [hc]; rfl))
      obtain ⟨hmem, hid⟩ := chain?_eq_some hy
      cases mem_chains_setChain hmem with
      | inl he => rw [hy, he, Option.map_some]
      | inr hold => exact absurd hid hold.2

theorem chain?_dropChain_self (b : Broker) (id : UInt64) : (b.dropChain id).chain? id = none := by
  rw [chain?, List.find?_eq_none]
  intro x hx hid
  exact ((mem_chains_dropChain b id x).mp hx).2 (by simpa using hid)

theorem chain?_addChain_self (b : Broker) (a : ActiveChain) :
    (b.addChain a).chain? a.chain.id = some a := by
  have hgone := chain?_dropChain_self b a.chain.id
  rw [chain?, dropChain] at hgone
  rw [chain?, addChain, List.find?_append, hgone]
  simp

theorem chain?_addChain_of_ne (h : id ≠ a.chain.id) : (b.addChain a).chain? id = b.chain? id := by
  have hsame := chain?_dropChain_of_ne (b := b) h
  rw [chain?, dropChain] at hsame
  rw [chain?, addChain, List.find?_append, hsame]
  simp [Ne.symm h]

/-- Another entry for a chain moves its hop. -/
theorem standing_setChain_self (ha : b.chain? a.chain.id = some a) (h : ActiveChain)
    (hid : h.chain.id = a.chain.id) : (b.setChain h).standing a.chain.id =
      { b.standing a.chain.id with hop := some ⟨h.awaited, h.hopStarted⟩ } := by
  have hset := chain?_setChain_self b h
  rw [hid, ha] at hset
  exact standing_of_some hset

/-- An outcome ends the hop, and is kept if somebody awaits it. -/
theorem standing_conclude_self (b : Broker) (a : ActiveChain) (o : Outcome) :
    (b.conclude a o).standing a.chain.id =
      ⟨none, if a.awaited then (b.standing a.chain.id).kept ++ [o]
        else (b.standing a.chain.id).kept⟩ := by
  have hgone := chain?_dropChain_self b a.chain.id
  rw [chain?] at hgone
  rw [standing, chain?, chains_conclude, hgone]
  unfold conclude
  cases ha : a.awaited with
  | false => rfl
  | true => simp [keepOutcome, standing, kept, count, dropChain]

/-- It leaves the other chains where they stand. -/
theorem standing_conclude_of_ne (b : Broker) (o : Outcome) (h : id ≠ a.chain.id) :
    (b.conclude a o).standing id = b.standing id := by
  have hsame := chain?_dropChain_of_ne (b := b) h
  rw [chain?] at hsame
  rw [standing, chain?, chains_conclude, hsame]
  unfold conclude
  cases ha : a.awaited with
  | false => rfl
  | true => simp [keepOutcome, standing, kept, count, dropChain, chain?, Ne.symm h]

/-- The table has no order: a chain is found at any place. -/
theorem chain?_of_perm {chains : List ActiveChain} (hb : b.Distinct)
    (hp : chains.Perm b.chains) :
    ({ b with chains } : Broker).chain? id = b.chain? id := by
  have hb' : Distinct { b with chains } := (hp.map _).nodup_iff.mpr hb
  cases hc : b.chain? id with
  | some a =>
      obtain ⟨hmem, rfl⟩ := chain?_eq_some hc
      exact chain?_of_mem hb' (hp.mem_iff.mpr hmem)
  | none =>
      rw [chain?, List.find?_eq_none]
      intro x hx
      simpa using chain?_eq_none hc x (hp.mem_iff.mp hx)

/-- The outcome that a caller finds is the oldest that is kept for it. -/
theorem lookup_outcomes (b : Broker) (id : UInt64) : b.outcomes.lookup id = (b.kept id).head? := by
  unfold kept
  induction b.outcomes with
  | nil => rfl
  | cons e es ih =>
      obtain ⟨i, o⟩ := e
      by_cases hi : i = id
      · simp [hi]
      · have hne : (id == i) = false := by simpa using Ne.symm hi
        simp [List.lookup_cons, hi, hne, ih]

/-- A caller that takes its outcome leaves none behind. -/
theorem standing_dropOutcome_self (b : Broker) (id : UInt64) :
    (b.dropOutcome id).standing id = ⟨(b.standing id).hop, []⟩ := by
  simp [standing, kept, dropOutcome, chain?]

theorem standing_dropOutcome_of_ne (h : i ≠ id) : (b.dropOutcome id).standing i = b.standing i := by
  have hkept : (b.dropOutcome id).kept i = b.kept i := by
    rw [kept, kept, dropOutcome, List.filter_filter]
    congr 2
    funext e
    by_cases he : e.1 = i
    · simp [he, h]
    · simp [he]
  rw [standing, hkept]
  rfl

/-- A caller that goes away leaves its hop unawaited, or else no outcome behind. -/
theorem standing_abandon_self (b : Broker) (id : UInt64) : (b.abandon id).standing id =
    match (b.standing id).hop with
    | some h => { b.standing id with hop := some { h with awaited := false } }
    | none => {} := by
  unfold abandon
  cases ha : b.chain? id with
  | some a =>
      obtain ⟨_, rfl⟩ := chain?_eq_some ha
      have hset := standing_setChain_self ha { a with awaited := false } rfl
      dsimp only
      rw [hset, standing_of_some ha]
  | none =>
      dsimp only
      rw [standing_dropOutcome_self, standing_of_none ha]

theorem standing_abandon_of_ne (h : i ≠ id) : (b.abandon id).standing i = b.standing i := by
  unfold abandon
  cases ha : b.chain? id with
  | some a =>
      obtain ⟨_, rfl⟩ := chain?_eq_some ha
      exact standing_eq (chain?_setChain_of_ne h) rfl
  | none => exact standing_dropOutcome_of_ne h

/-! ## turns -/

theorem Turn.refl (b : Broker) : Turn b [] b := ⟨rfl, rfl, fun _ => rfl, lawful_nil _, by simp⟩

theorem Turn.trans (h : Turn b N b') (h' : Turn b' M b'') : Turn b (N ++ M) b'' := by
  constructor
  · exact h'.settings.trans h.settings
  · exact h'.now.trans h.now
  · intro id
    rw [h'.standing, h.standing, h.now, Standing.through_append]
  · refine lawful_append.mpr ⟨h.lawful, fun p n hp c hc => ?_⟩
    have hadmits := h'.lawful p n hp c hc
    rwa [h.standing, h.now, h.settings, ← Standing.through_append] at hadmits
  · exact fun e he => (List.mem_append.mp he).elim (h.alone e) (h'.alone e)

/-- Nothing happens to any chain. -/
theorem Turn.silent (hsettings : b'.settings = b.settings) (hnow : b'.now = b.now)
    (hchains : b'.chains = b.chains) (houtcomes : b'.outcomes = b.outcomes)
    (hN : ∀ n ∈ N, n.isAside = true) : Turn b N b' := by
  have hnone : ∀ n ∈ N, n.chain? = none := fun n hn => n.chain?_of_isAside (hN n hn)
  constructor
  · exact hsettings
  · exact hnow
  · intro id
    rw [Standing.through_of_silent fun n hn => by simp [Note.concerns, hnone n hn]]
    exact standing_eq (by rw [chain?, chain?, hchains]) houtcomes
  · intro p n hp c hc
    rw [hnone n (hp.subset (List.mem_append_right p List.mem_cons_self))] at hc
    cases hc
  · intro e he
    cases hN _ he

/-- An event that leaves chains, outcomes, time and settings alone is a turn without notes. -/
theorem Turn.still (hsettings : b'.settings = b.settings) (hnow : b'.now = b.now)
    (hchains : b'.chains = b.chains) (houtcomes : b'.outcomes = b.outcomes) : Turn b [] b' :=
  .silent hsettings hnow hchains houtcomes (by simp)

/-- A turn may follow such an event. -/
theorem Turn.behind (h : Turn b' N b'') (hsettings : b'.settings = b.settings)
    (hnow : b'.now = b.now) (hchains : b'.chains = b.chains)
    (houtcomes : b'.outcomes = b.outcomes) : Turn b N b'' :=
  (Turn.still hsettings hnow hchains houtcomes).trans h

/-- One note about a chain. -/
theorem Turn.note {n : Note} {c : Chain} (hc : n.chain? = some c)
    (hsettings : b'.settings = b.settings) (hnow : b'.now = b.now)
    (hadmits : (b.standing c.id).Admits b.settings.chainTimeout b.now n)
    (hself : b'.standing c.id = (b.standing c.id).after b.now n)
    (hne : ∀ id, id ≠ c.id → b'.standing id = b.standing id) : Turn b [n] b' := by
  constructor
  · exact hsettings
  · exact hnow
  · intro id
    by_cases hid : id = c.id
    · subst hid
      rw [Standing.through_cons, (concerns_iff n c.id).mpr ⟨c, hc, rfl⟩]
      exact hself
    · rw [Standing.through_of_silent, hne id hid]
      intro m hm
      rw [List.mem_singleton.mp hm]
      exact concerns_eq_false_of_ne hc (Ne.symm hid)
  · refine lawful_singleton fun c' hc' => ?_
    rw [hc] at hc'
    cases hc'
    exact hadmits
  · intro e he
    rw [← List.mem_singleton.mp he] at hc
    cases hc

/-- One after another, as long as what the next one needs is there. -/
theorem turn_foldl {α : Type} {f : Broker → α → Broker} {notes : Broker → α → List Note}
    {I : Broker → List α → Prop}
    (hstep : ∀ b x xs, I b (x :: xs) → Turn b (notes b x) (f b x) ∧ I (f b x) xs)
    {b : Broker} {xs : List α} (h : I b xs) : Turn b (foldNotes f notes b xs) (xs.foldl f b) := by
  induction xs generalizing b with
  | nil => exact Turn.refl b
  | cons x xs ih =>
      obtain ⟨hfirst, hI⟩ := hstep b x xs h
      exact hfirst.trans (ih hI)

/-! ## chains -/

theorem isSome_hop (ha : b.chain? id = some a) : (b.standing id).hop.isSome := by
  rw [standing_of_some ha]
  rfl

/-- The end of a chain that stands in the table with its caller. -/
theorem turn_conclude {x : ActiveChain} (o : Outcome) (hx : b.chain? a.chain.id = some x)
    (hawaited : x.awaited = a.awaited) : Turn b [.ended a.chain o] (b.conclude a o) := by
  have hc := carried_conclude b a o
  refine .note rfl hc.settings hc.now (isSome_hop hx) ?_ fun id => standing_conclude_of_ne b o
  rw [standing_conclude_self, standing_of_some hx, ← hawaited]
  simp only [Standing.after, Option.any_some]

/-- Carrying a chain on is the turn of its notes. -/
theorem turn_drive {x : ActiveChain} (step : Step) (hx : b.chain? a.chain.id = some x)
    (hawaited : x.awaited = a.awaited) : Turn b (b.driveNotes a step) (b.drive a step) := by
  induction b, a, step using drive.induct with
  | case1 b a =>
      rw [driveNotes, drive]
      exact turn_conclude _ hx hawaited
  | case2 b a =>
      rw [driveNotes, drive]
      exact turn_conclude _ hx hawaited
  | case3 b a client sent hs =>
      rw [driveNotes, drive, hs]
      obtain ⟨link, queue, _, _, rfl⟩ := trySend_eq_some hs
      have hset := chain?_setChain_self b { a with hopStarted := b.now }
      rw [hx] at hset
      refine .note rfl rfl rfl (isSome_hop hx) ?_ fun id hid =>
        standing_eq (chain?_setChain_of_ne (b := b) hid) rfl
      rw [standing_of_some hx, hawaited]
      exact standing_of_some hset
  | case4 b a client hs next ih =>
      have hid : next.2.id = a.chain.id := Chain.advance_id _ _ _ _
      rw [driveNotes, drive, hs]
      have hmissed : Turn b [.handed a.chain client false] b :=
        .note rfl rfl rfl (isSome_hop hx) rfl fun _ _ => rfl
      have hdirected :
          Turn b [.directed a.chain .disconnect b.settings.onDisconnect.directive]
            (b.count .disconnectFallbacks []) :=
        .note rfl rfl rfl (isSome_hop hx) rfl fun _ _ => rfl
      have hrest := ih (by rw [hid]; exact hx) hawaited
      exact hmissed.trans (hdirected.trans hrest)

/-- A directive at a chain that stands where its cause needs it to. -/
theorem turn_apply (cause : Cause) (d : Directive)
    (hcause : cause = .timeout → ∀ a, b.chain? id = some a →
      b.settings.chainTimeout ≤ b.now - a.hopStarted) :
    Turn b (b.applyNotes id cause d) (b.apply id d) := by
  unfold applyNotes apply
  cases ha : b.chain? id with
  | none => exact Turn.refl b
  | some a =>
      obtain ⟨_, rfl⟩ := chain?_eq_some ha
      have hid : (a.chain.advance b.registry b.settings.decodeMode d).2.id = a.chain.id :=
        Chain.advance_id _ _ _ _
      have hdirected : Turn b [.directed a.chain cause d] b := by
        refine .note rfl rfl rfl ?_ rfl fun _ _ => rfl
        cases cause with
        | timeout => exact ⟨⟨a.awaited, a.hopStarted⟩, by rw [standing_of_some ha], hcause rfl a ha⟩
        | answer | disconnect => exact isSome_hop ha
      have hin : b.chain? (a.chain.advance b.registry b.settings.decodeMode d).2.id = some a := by
        rw [hid]
        exact ha
      exact hdirected.trans (turn_drive _ hin rfl)

/-- Judging a hop is a turn: what it tells to be late has lasted for long enough. -/
theorem turn_expire (b : Broker) (id : UInt64) : Turn b (b.expireNotes id) (b.expire id) := by
  cases b.judged id with
  | timely _ hstate hnotes =>
      rw [hstate, hnotes]
      exact Turn.refl b
  | late ha hdue hstate hnotes =>
      rw [hstate, hnotes]
      refine (turn_apply .timeout _ fun _ x hx => ?_).behind rfl rfl rfl rfl
      cases ha.symm.trans hx
      exact hdue

theorem turn_foldl_expire (b : Broker) (ids : List UInt64) :
    Turn b (foldNotes expire expireNotes b ids) (ids.foldl expire b) :=
  turn_foldl (I := fun _ _ => True) (fun b id _ _ => ⟨turn_expire b id, trivial⟩) trivial

/-! ## extensions -/

theorem turn_giveUp (b : Broker) (id : UInt64) : Turn b (b.giveUpNotes id) (b.giveUp id) :=
  (turn_apply .disconnect _ fun hc => by cases hc).behind rfl rfl rfl rfl

theorem turn_release (b : Broker) (ext : String) (session : Nat) :
    Turn b (b.releaseNotes ext session) (b.release ext session) := by
  have hgivenUp : Turn (b.forgetSession ext session) (b.releaseNotes ext session)
      (b.release ext session) :=
    turn_foldl (I := fun _ _ => True) (fun b id _ _ => ⟨turn_giveUp b id, trivial⟩) trivial
  exact hgivenUp.behind rfl rfl rfl rfl

/-- A registration is the turn of the release of the session that it replaces. -/
theorem turn_register (b : Broker) (ext : String) (is : List Interest) (capacity : Nat) :
    Turn b (b.registerNotes ext is capacity) (b.register ext is capacity) := by
  unfold registerNotes Broker.register
  cases b.registry.get? ext with
  | some old => exact (turn_release _ _ _).behind rfl rfl rfl rfl
  | none => exact .still rfl rfl rfl rfl

/-- Taking an extension away is the turn of the release of its session. -/
theorem turn_removed (b : Broker) (found : Option (Registration × Registry)) :
    Turn b (b.removedNotes found) (b.removed found) := by
  unfold removedNotes removed
  cases found with
  | some left => exact (turn_release _ _ _).behind rfl rfl rfl rfl
  | none => exact Turn.refl b

/-! ## packets -/

/-- Copies for observers are a turn that moves no chain. -/
theorem turn_copied (b : Broker) (bytes : Bytes) (packet : Packet) (direction : Direction)
    (flags : UInt32) :
    Turn b (b.copyNotes bytes direction flags (b.observersOf packet direction))
      (b.copied bytes packet direction flags) := by
  refine turn_foldl (I := fun _ _ => True) (fun b c _ _ => ⟨?_, trivial⟩) trivial
  have htold := told_notify b bytes direction flags c
  exact .silent htold.settings htold.now htold.chains htold.outcomes (isAside_notifyNotes _ _ _ _ _)

/-- A new chain stands awaited, since now, until its first notes move it. -/
theorem turn_startChain (b : Broker) (bytes : Bytes) (packet : Packet) (direction : Direction)
    (flags : UInt32) (candidates : List Client) :
    Turn b (b.startNotes bytes packet direction flags candidates)
      (b.startChain bytes packet direction flags candidates) := by
  let c : Chain := { id := b.freshId, bytes, packet, direction, flags }
  let next := c.nextFrom candidates
  let a : ActiveChain := ⟨next.2, true, b.now, b.now⟩
  have hid : a.chain.id = c.id := Chain.nextFrom_id c candidates
  have hin := chain?_addChain_self b.drawn a
  have hstarted : Turn b [.started c] ((b.drawn.addChain a).count .chainsStarted []) := by
    refine .note rfl rfl rfl trivial ?_ fun id hne => ?_
    · rw [← hid]
      exact standing_of_some hin
    · exact standing_eq (chain?_addChain_of_ne (b := b.drawn) (hid ▸ hne)) rfl
  exact hstarted.trans (turn_drive next.1 hin rfl)

/-- A submission is the turn of its copies and of its chain. -/
theorem turn_submit (b : Broker) (bytes : Bytes) (direction : Direction) (flags : UInt32) :
    Turn b (b.submitNotes bytes direction flags) (b.submit bytes direction flags).2 := by
  cases b.received bytes direction flags with
  | refused _ hresult hnotes =>
      rw [hresult, hnotes]
      exact .still rfl rfl rfl rfl
  | passes _ _ hresult hnotes =>
      rw [hresult, hnotes]
      exact turn_copied b bytes _ direction flags
  | starts _ _ hresult hnotes =>
      rw [hresult, hnotes]
      exact (turn_copied b bytes _ direction flags).trans (turn_startChain _ _ _ _ _ _)

/-! ## answers -/

/-- A packet for the outbound path moves no chain. -/
theorem turn_enqueue (b : Broker) (bytes : Bytes) (direction : Direction) (flags : UInt32)
    (source : String) :
    Turn b (b.enqueueNotes bytes direction flags source)
      (b.enqueue bytes direction flags source).2 := by
  have hposted := posted_enqueue b bytes direction flags source
  exact .silent hposted.settings hposted.now hposted.chains hposted.outcomes
    (isAside_enqueueNotes _ _ _ _ _)

/-- An answer moves the chain that it is for, as its notes tell. -/
theorem turn_respond (b : Broker) (ext : String) (r : Response) :
    Turn b (b.respondNotes ext r) (b.respond ext r).2 := by
  cases b.answered ext r with
  | rejected hresult hnotes =>
      rw [hresult, hnotes]
      exact .still rfl rfl rfl rfl
  | held _ _ _ _ hresult hnotes =>
      rw [hresult, hnotes]
      exact (turn_apply (.answer ext r.interestId) _ fun hc => by cases hc).behind rfl rfl rfl rfl
  | @owned c _ _ _ _ hresult hnotes =>
      rw [hresult, hnotes]
      have hposted := posted_redeem b c r.directive
      exact .silent hposted.settings hposted.now hposted.chains hposted.outcomes
        (isAside_redeemNotes _ _ _)

/-- An injection moves no chain. -/
theorem turn_inject (b : Broker) (bytes : Bytes) (direction : Direction) (flags : UInt32) :
    Turn b (b.injectNotes bytes direction flags) (b.inject bytes direction flags).2 := by
  unfold injectNotes inject decode
  cases Packet.decode b.settings.decodeMode bytes with
  | error e => exact .still rfl rfl rfl rfl
  | ok packet => exact turn_enqueue b bytes direction flags "push"

/-! ## housekeeping -/

/-- A chain is dropped that nobody awaits. -/
theorem turn_dropAbandoned (h : ∀ a, b.chain? id = some a → a.awaited = false) :
    Turn b (b.dropAbandonedNotes id) (b.dropAbandoned id) := by
  unfold dropAbandonedNotes
  cases ha : b.chain? id with
  | none =>
      refine ⟨rfl, rfl, fun i => standing_eq ?_ rfl, lawful_nil _, by simp⟩
      by_cases hi : i = id
      · subst hi
        exact (chain?_dropChain_self b i).trans ha.symm
      · exact chain?_dropChain_of_ne hi
  | some a =>
      obtain ⟨_, rfl⟩ := chain?_eq_some ha
      refine .note rfl rfl rfl
        ⟨⟨a.awaited, a.hopStarted⟩, by rw [standing_of_some ha], h a ha⟩ ?_
        fun i hi => standing_eq (chain?_dropChain_of_ne hi) rfl
      exact standing_of_none (chain?_dropChain_self b a.chain.id)

/-- What is to be dropped is nobody's. -/
theorem awaited_of_mem_abandoned (hb : b.Distinct) (hid : id ∈ b.abandoned) {x : ActiveChain}
    (hx : b.chain? id = some x) : x.awaited = false := by
  obtain ⟨a, ha, rfl⟩ := List.mem_map.mp hid
  obtain ⟨hmem, hawaited⟩ := List.mem_filter.mp ha
  rw [chain?_of_mem hb hmem] at hx
  cases hx
  simpa using hawaited

/-- It still is when its turn comes: dropping others leaves it alone. -/
theorem turn_prune (hb : b.Distinct) : Turn b b.pruneNotes b.prune := by
  suffices hdropped : Turn b.forgetOld b.pruneNotes b.prune from hdropped.behind rfl rfl rfl rfl
  refine turn_foldl
    (I := fun b ids => ∀ id ∈ ids, ∀ a, b.chain? id = some a → a.awaited = false) ?_
    fun id hid x hx => awaited_of_mem_abandoned hb hid hx
  intro b id ids h
  refine ⟨turn_dropAbandoned (h id List.mem_cons_self), fun i hi x hx => ?_⟩
  have hx : (b.dropChain id).chain? i = some x := hx
  by_cases hid : i = id
  · rw [hid, chain?_dropChain_self] at hx
    cases hx
  · rw [chain?_dropChain_of_ne hid] at hx
    exact h i (List.mem_cons_of_mem _ hi) x hx

/-- A sweep is the turn of the chains that it drops, and then of the hops that it judges. -/
theorem turn_sweep (hb : b.Distinct) : Turn b b.sweepNotes b.sweep.2 :=
  (turn_prune hb).trans (turn_foldl_expire _ _)

/-! ## events -/

/-- **Every other event is a turn.** -/
theorem turn_step (hb : b.Distinct) {e : Event} (he : e.IsTurn) :
    Turn b (b.notes e) (b.step e) := by
  cases e with
  | register ext is capacity => exact turn_register b ext is capacity
  | unregister ext => exact turn_removed b _
  | unregisterSession ext session => exact turn_removed b _
  | submit bytes direction flags => exact turn_submit b bytes direction flags
  | expire id => exact turn_expire b id
  | respond ext r => exact turn_respond b ext r
  | inject bytes direction flags => exact turn_inject b bytes direction flags
  | prune => exact turn_prune hb
  | sweep => exact turn_sweep hb
  | takeFrames | closeLink | takeInjected | closeInjected => exact .still rfl rfl rfl rfl
  | poll | abandon | later => cases he

end Broker

end Intercept
