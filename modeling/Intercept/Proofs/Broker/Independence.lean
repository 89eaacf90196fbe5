import Intercept.Proofs.Broker.Aside
import Intercept.Proofs.Broker.Deadline
import Intercept.Proofs.Broker.Tally

/-!
# Intercept.Proofs.Broker.Independence

Chains share nothing but the room in the queues.

```
t : Touch                 what is done to one chain: it is answered, given up, judged or dropped
b.touches L               the broker after the touches L, one after another
Elsewhere b b'            between these states other chains have been touched
Roomy b N                 while N happens, no queue runs out of the room that it has at b
Indifferent b N N' c c'   N leads from b to c and N' to c', and that comes to the same
```

Two answers, the chains that a session leaves behind, and the chains that
housekeeping comes across are all touched one after another, each at most
once.  What a touch does to its chain and tells of it is what it would do and
tell if it were the first (`Elsewhere.touch`), as long as it finds room where
the first would.  So the order means nothing to any chain, and only frames that
wait in the same queue can have changed places (`indifferent_touches`).
-/

namespace Intercept

/-- What is done to one chain. -/
inductive Touch where
  /-- An extension answers for it. -/
  | answered (ext : String) (r : Response)
  /-- Its holder is gone. -/
  | givenUp (id : UInt64)
  /-- Its hop is judged. -/
  | judged (id : UInt64)
  /-- It is dropped. -/
  | dropped (id : UInt64)

/-- The chain that is touched. -/
def Touch.id : Touch → UInt64
  | answered _ r => r.packetId
  | givenUp id | judged id | dropped id => id

/-- What has to be so of the chain: it answers who holds it, and nobody awaits what is dropped. -/
def Touch.Suits : Touch → Option ActiveChain → Prop
  | answered ext r, a? => ∃ a holder, a? = some a ∧ a.chain.holder = some holder ∧
      holder.ext = ext ∧ holder.interest.id = r.interestId
  | dropped _, a? => ∀ a, a? = some a → a.awaited = false
  | givenUp _, _ | judged _, _ => True

namespace Broker

/-- The broker after a touch. -/
def touch (b : Broker) : Touch → Broker
  | .answered ext r => (b.respond ext r).2
  | .givenUp id => b.giveUp id
  | .judged id => b.expire id
  | .dropped id => b.dropAbandoned id

/-- What a touch adds to the journal. -/
def touchNotes (b : Broker) : Touch → List Note
  | .answered ext r => b.respondNotes ext r
  | .givenUp id => b.giveUpNotes id
  | .judged id => b.expireNotes id
  | .dropped id => b.dropAbandonedNotes id

/-- The broker after some touches, one after another. -/
def touches (b : Broker) (L : List Touch) : Broker := L.foldl touch b

/-- What they add to the journal. -/
def touchesNotes (b : Broker) (L : List Touch) : List Note := foldNotes touch touchNotes b L

/-- Each chain is touched once at most, and suitably. -/
structure Due (b : Broker) (L : List Touch) : Prop where
  nodup : (L.map Touch.id).Nodup
  suits : ∀ t ∈ L, t.Suits (b.chain? t.id)

/-- The note tells that a chain could not be handed to a client, whose queue has room here: it has
run out of it since. -/
def runsOut (b : Broker) : Note → Bool
  | .handed _ client false => (b.queue? client.session).any (·.hasRoom)
  | _ => false

/-- No queue runs out of the room that it has here: the notes tell of no such hand-over. -/
def Roomy (b : Broker) (N : List Note) : Prop := N.any b.runsOut = false

/-- As far as one chain can see, nothing has happened between these states but that other chains
have been touched. -/
structure Elsewhere (b b' : Broker) : Prop where
  settings : b'.settings = b.settings
  registry : b'.registry = b.registry
  now : b'.now = b.now
  room : ∀ s, (b'.queue? s).any (·.hasRoom) = true → (b.queue? s).any (·.hasRoom) = true

/-- The notes `N` lead from `b` to `c` and the notes `N'` to `c'`, and that comes to the same: only
the new frames of a queue can have another order. -/
structure Indifferent (b : Broker) (N N' : List Note) (c c' : Broker) : Prop where
  settings : c'.settings = c.settings
  registry : c'.registry = c.registry
  correlations : c'.correlations = c.correlations
  injected : c'.injected = c.injected
  nextId : c'.nextId = c.nextId
  now : c'.now = c.now
  /-- The table is the same; it has no order. -/
  chains : c'.chains.Perm c.chains
  chain : ∀ id, c'.chain? id = c.chain? id
  /-- Callers find the same outcomes. -/
  kept : ∀ id, c'.kept id = c.kept id
  /-- The same has happened to every chain. -/
  told : ∀ id, N'.filter (·.concerns id) = N.filter (·.concerns id)
  /-- Every queue has got the same new frames. -/
  queue : ∀ s, ∃ frames frames' : List Frame, frames'.Perm frames ∧
    c.queue? s = (b.queue? s).map (·.fed frames) ∧ c'.queue? s = (b.queue? s).map (·.fed frames')

variable {b b' b'' c c' : Broker} {a : ActiveChain} {id : UInt64} {t : Touch} {L L' : List Touch}
  {N N' : List Note}

/-! ## one chain -/

theorem roomy_append : Roomy b (N ++ N') ↔ Roomy b N ∧ Roomy b N' := by
  simp only [Roomy, List.any_append, Bool.or_eq_false_iff]

theorem roomy_cons {n : Note} : Roomy b (n :: N) ↔ b.runsOut n = false ∧ Roomy b N := by
  simp only [Roomy, List.any_cons, Bool.or_eq_false_iff]

theorem Elsewhere.refl (b : Broker) : Elsewhere b b := ⟨rfl, rfl, rfl, fun _ h => h⟩

/-- What is counted in both states is nothing that a chain sees. -/
theorem Elsewhere.count (h : Elsewhere b b') (counter : Counter)
    (labels : List (String × String)) :
    Elsewhere (b.count counter labels) (b'.count counter labels) :=
  ⟨h.settings, h.registry, h.now, h.room⟩

/-- Carrying a chain on happens elsewhere for the others. -/
theorem Elsewhere.carried (h : Elsewhere b b') (hcarried : Carried b' b'') (hfed : Fed N b' b'') :
    Elsewhere b b'' :=
  ⟨hcarried.settings.trans h.settings, hcarried.registry.trans h.registry,
    hcarried.now.trans h.now, fun s hs => h.room s (hfed.room hs)⟩

/-- Whoever can be reached then can be reached now. -/
theorem Elsewhere.reaches (h : Elsewhere b b') {ext : String} (hext : b'.reaches ext = true) :
    b.reaches ext = true := by
  unfold Broker.reaches at hext ⊢
  rw [h.registry, Option.any_eq_true] at hext
  obtain ⟨g, hg, hroom⟩ := hext
  rw [hg]
  exact h.room g.session hroom

/-- **A chain goes the same way whatever has happened elsewhere**, as long as no queue has run out
of room. -/
theorem Elsewhere.drive {step : Step} (hsound : b'.registry.Sound)
    (hgoes : a.chain.GoesTo b'.registry step) (hin' : (b'.chain? a.chain.id).isSome) :
    ∀ b, Elsewhere b b' → (b.chain? a.chain.id).isSome → Roomy b (b'.driveNotes a step) →
      b'.driveNotes a step = b.driveNotes a step ∧
        (b'.drive a step).chain? a.chain.id = (b.drive a step).chain? a.chain.id := by
  -- the later broker leads, since it is the one that may fail where the first would not
  induction b', a, step using drive.induct with
  | case1 b' a =>
      intro b _ _ _
      rw [Broker.drive, driveNotes, Broker.drive, driveNotes]
      exact ⟨rfl, (chain?_conclude _ _ _).trans (chain?_conclude _ _ _).symm⟩
  | case2 b' a =>
      intro b _ _ _
      rw [Broker.drive, driveNotes, Broker.drive, driveNotes]
      exact ⟨rfl, (chain?_conclude _ _ _).trans (chain?_conclude _ _ _).symm⟩
  | case3 b' a client sent' hs' =>
      intro b h hin _
      have hreaches : b'.reaches client.ext = true := by
        rw [← isSome_trySend b' client.ext (a.chain.frameFor client), hs']
        rfl
      have hsome := h.reaches hreaches
      rw [← isSome_trySend b client.ext (a.chain.frameFor client)] at hsome
      obtain ⟨sent, hs⟩ := Option.isSome_iff_exists.mp hsome
      have hset := chain?_setChain_of_trySend (a := { a with hopStarted := b.now }) hs hin
      have hset' := chain?_setChain_of_trySend (a := { a with hopStarted := b'.now }) hs' hin'
      rw [Broker.drive, driveNotes, hs', Broker.drive, driveNotes, hs]
      exact ⟨rfl, (hset'.trans (by rw [h.now])).trans hset.symm⟩
  | case4 b' a client hs' next ih =>
      intro b h hin hroomy
      obtain ⟨_, _, hserves, _⟩ := hgoes client rfl
      have hid : next.2.id = a.chain.id := Chain.advance_id _ _ _ _
      rw [driveNotes, hs'] at hroomy
      obtain ⟨hfull, hroomy⟩ := roomy_cons.mp hroomy
      obtain ⟨_, hroomy⟩ := roomy_cons.mp hroomy
      -- the queue had no room before either, or it would have run out of it
      have hs : b.trySend client.ext (a.chain.frameFor client) = none := by
        rw [h.registry] at hserves
        rw [← Option.not_isSome_iff_eq_none, isSome_trySend, reaches_of_serves hserves]
        exact Bool.eq_false_iff.mp hfull
      have hrest := ih hsound (Chain.goesTo_advance hsound _ _ _) (by rw [hid]; exact hin')
        (b.count .disconnectFallbacks []) (h.count _ _) (by rw [hid]; exact hin) hroomy
      rw [hid] at hrest
      rw [Broker.drive, driveNotes, hs', Broker.drive, driveNotes, hs, ← h.settings, ← h.registry]
      exact ⟨congrArg _ (congrArg _ hrest.1), hrest.2⟩

/-- So does one at which a directive is applied. -/
theorem Elsewhere.apply (h : Elsewhere b b') (hsound : b'.registry.Sound)
    (hchain : b'.chain? id = b.chain? id) {cause : Cause} {d : Directive}
    (hroomy : Roomy b (b'.applyNotes id cause d)) :
    b'.applyNotes id cause d = b.applyNotes id cause d ∧
      (b'.apply id d).chain? id = (b.apply id d).chain? id := by
  unfold applyNotes Broker.apply at *
  rw [hchain] at hroomy ⊢
  cases ha : b.chain? id with
  | none => exact ⟨rfl, hchain⟩
  | some a =>
      obtain ⟨_, rfl⟩ := chain?_eq_some ha
      have hid : (a.chain.advance b'.registry b'.settings.decodeMode d).2.id = a.chain.id :=
        Chain.advance_id _ _ _ _
      rw [ha] at hroomy
      have hdrive := Elsewhere.drive hsound (Chain.goesTo_advance hsound _ _ _)
        (a := { a with chain := (a.chain.advance b'.registry b'.settings.decodeMode d).2 })
        (by rw [hid, hchain, ha]; rfl) b h (by rw [hid, ha]; rfl) (roomy_cons.mp hroomy).2
      rw [hid] at hdrive
      rw [← h.settings, ← h.registry]
      exact ⟨congrArg _ hdrive.1, hdrive.2⟩

/-! ## one touch -/

/-- What a touch comes to. -/
inductive Touched (b : Broker) (t : Touch) : Prop where
  | spared (state : b.touch t = b) (notes : b.touchNotes t = [])
  | directed {counter : Counter} {labels : List (String × String)} {cause : Cause} {d : Directive}
      (state : b.touch t = (b.count counter labels).apply t.id d)
      (notes : b.touchNotes t = (b.count counter labels).applyNotes t.id cause d)
  | dropped (state : b.touch t = b.dropAbandoned t.id)
      (notes : b.touchNotes t = b.dropAbandonedNotes t.id)

/-- The holder's answer is taken. -/
theorem touch_answered {ext : String} {r : Response}
    (h : (Touch.answered ext r).Suits (b.chain? r.packetId)) :
    b.respond ext r = (.ok (),
        (b.count .directives [("op", r.directive.name)]).apply r.packetId r.directive) ∧
      b.respondNotes ext r = (b.count .directives [("op", r.directive.name)]).applyNotes r.packetId
        (.answer ext r.interestId) r.directive := by
  obtain ⟨a, holder, ha, hholder, rfl, hid⟩ := h
  exact ⟨respond_of_holder ha hholder hid, (respond_holder ha hholder hid).2⟩

/-- A touch spares its chain, directs it once, or drops it. -/
theorem touched (h : t.Suits (b.chain? t.id)) : b.Touched t := by
  cases t with
  | answered ext r =>
      obtain ⟨hstate, hnotes⟩ := touch_answered h
      exact .directed (congrArg Prod.snd hstate) hnotes
  | givenUp id => exact .directed rfl rfl
  | judged id =>
      cases b.judged id with
      | timely _ hstate hnotes => exact .spared hstate hnotes
      | late _ _ hstate hnotes => exact .directed hstate hnotes
  | dropped id => exact .dropped rfl rfl

/-- A touch carries its chain on and leaves all else alone. -/
theorem carried_touch (h : t.Suits (b.chain? t.id)) : Carried b (b.touch t) := by
  cases touched h with
  | spared hstate => rw [hstate]; exact Carried.refl b
  | @directed counter labels _ d hstate =>
      rw [hstate]
      have happly := carried_apply (b.count counter labels) t.id d
      exact ⟨happly.settings, happly.registry, happly.correlations, happly.injected,
        happly.nextId, happly.now⟩
  | dropped hstate => rw [hstate]; exact carried_dropAbandoned b t.id

/-- A touch leaves the other chains alone. -/
theorem chain?_touch_of_ne (h : t.Suits (b.chain? t.id)) (hid : id ≠ t.id) :
    (b.touch t).chain? id = b.chain? id := by
  cases touched h with
  | spared hstate => rw [hstate]
  | @directed counter labels _ d hstate =>
      rw [hstate]
      exact chain?_apply_of_ne (b := b.count counter labels) hid
  | dropped hstate => rw [hstate]; exact chain?_dropChain_of_ne hid

/-- No chain gets a second entry while one is carried on. -/
theorem Distinct.drive (hb : b.Distinct) (a : ActiveChain) (step : Step) :
    (b.drive a step).Distinct := by
  unfold Distinct
  cases drive_rule (P := fun _ _ => True) (b := b) (a := a) (fun _ _ _ => trivial) trivial with
  | inl hset =>
      obtain ⟨c, client, _, _, hchains⟩ := hset
      rw [hchains, ids_setChain]
      exact hb
  | inr hdrop =>
      rw [hdrop]
      exact hb.dropChain _

theorem Distinct.apply (hb : b.Distinct) (id : UInt64) (d : Directive) :
    (b.apply id d).Distinct := by
  unfold Broker.apply
  cases b.chain? id with
  | none => exact hb
  | some a => exact hb.drive _ _

theorem Distinct.touch (hb : b.Distinct) (h : t.Suits (b.chain? t.id)) : (b.touch t).Distinct := by
  cases touched h with
  | spared hstate => rw [hstate]; exact hb
  | @directed counter labels _ d hstate =>
      rw [hstate]
      exact Distinct.apply (b := b.count counter labels) hb t.id d
  | dropped hstate => rw [hstate]; exact hb.dropChain t.id

/-- A touch feeds the queues what it tells. -/
theorem fed_touch (hsound : b.registry.Sound) (t : Touch) :
    Fed (b.touchNotes t) b (b.touch t) := by
  cases t with
  | answered ext r => exact fed_respond hsound ext r
  | givenUp id => exact fed_giveUp hsound id
  | judged id => exact fed_expire hsound id
  | dropped id => exact fed_dropAbandoned b id

/-- A touch is the turn of what it tells. -/
theorem turn_touch (h : t.Suits (b.chain? t.id)) : Turn b (b.touchNotes t) (b.touch t) := by
  cases t with
  | answered ext r => exact turn_respond b ext r
  | givenUp id => exact turn_giveUp b id
  | judged id => exact turn_expire b id
  | dropped id => exact turn_dropAbandoned h

/-- All notes of a chain that is carried on are about that chain. -/
theorem concerns_driveNotes (b : Broker) (a : ActiveChain) (step : Step) (id : UInt64) :
    ∀ n ∈ b.driveNotes a step, n.concerns id = decide (a.chain.id = id) := by
  induction b, a, step using driveNotes.induct with
  | case1 b a => rw [driveNotes]; simp [Note.concerns, Note.chain?]
  | case2 b a => rw [driveNotes]; simp [Note.concerns, Note.chain?]
  | case3 b a client sent hs => rw [driveNotes, hs]; simp [Note.concerns, Note.chain?]
  | case4 b a client hs d next ih =>
      have hid : next.2.id = a.chain.id := Chain.advance_id _ _ _ _
      rw [driveNotes, hs]
      rw [hid] at ih
      exact List.forall_mem_cons.mpr ⟨rfl, List.forall_mem_cons.mpr ⟨rfl, ih⟩⟩

theorem concerns_applyNotes (b : Broker) (i : UInt64) (cause : Cause) (d : Directive)
    (id : UInt64) : ∀ n ∈ b.applyNotes i cause d, n.concerns id = decide (i = id) := by
  unfold applyNotes
  cases ha : b.chain? i with
  | none => exact fun n hn => by cases hn
  | some a =>
      obtain ⟨_, rfl⟩ := chain?_eq_some ha
      have hdrive := concerns_driveNotes b
        { a with chain := (a.chain.advance b.registry b.settings.decodeMode d).2 }
        (a.chain.advance b.registry b.settings.decodeMode d).1 id
      rw [Chain.advance_id] at hdrive
      exact List.forall_mem_cons.mpr ⟨rfl, hdrive⟩

/-- Whatever a touch tells is about the chain that is touched. -/
theorem concerns_touchNotes (h : t.Suits (b.chain? t.id)) (id : UInt64) :
    ∀ n ∈ b.touchNotes t, n.concerns id = decide (t.id = id) := by
  cases touched h with
  | spared _ hnotes => rw [hnotes]; exact fun n hn => by cases hn
  | directed _ hnotes => rw [hnotes]; exact concerns_applyNotes _ _ _ _ id
  | dropped _ hnotes =>
      rw [hnotes, dropAbandonedNotes]
      cases ha : b.chain? t.id with
      | none => exact fun n hn => by cases hn
      | some a => simp [Note.concerns, Note.chain?, (chain?_eq_some ha).2]

/-- An answer does to its chain, and tells of it, what it would do if no other chain had been
touched. -/
theorem Elsewhere.respond (h : Elsewhere b b') (hsound : b'.registry.Sound) {ext : String}
    {r : Response} (hchain : b'.chain? r.packetId = b.chain? r.packetId)
    (hsuits : (Touch.answered ext r).Suits (b.chain? r.packetId))
    (hroomy : Roomy b (b'.respondNotes ext r)) :
    b'.respondNotes ext r = b.respondNotes ext r ∧
      (b'.respond ext r).2.chain? r.packetId = (b.respond ext r).2.chain? r.packetId := by
  have hsuits' := hsuits
  rw [← hchain] at hsuits'
  obtain ⟨hstate, hnotes⟩ := touch_answered hsuits
  obtain ⟨hstate', hnotes'⟩ := touch_answered hsuits'
  rw [hnotes'] at hroomy
  rw [hstate, hnotes, hstate', hnotes']
  exact (h.count .directives [("op", r.directive.name)]).apply hsound hchain hroomy

theorem Elsewhere.giveUp (h : Elsewhere b b') (hsound : b'.registry.Sound)
    (hchain : b'.chain? id = b.chain? id) (hroomy : Roomy b (b'.giveUpNotes id)) :
    b'.giveUpNotes id = b.giveUpNotes id ∧ (b'.giveUp id).chain? id = (b.giveUp id).chain? id := by
  unfold giveUpNotes Broker.giveUp at *
  rw [h.settings] at hroomy ⊢
  exact (h.count .disconnectFallbacks []).apply hsound hchain hroomy

theorem Elsewhere.expire (h : Elsewhere b b') (hsound : b'.registry.Sound)
    (hchain : b'.chain? id = b.chain? id) (hroomy : Roomy b (b'.expireNotes id)) :
    b'.expireNotes id = b.expireNotes id ∧ (b'.expire id).chain? id = (b.expire id).chain? id := by
  unfold expireNotes Broker.expire at *
  rw [h.settings, h.now, hchain] at hroomy ⊢
  cases ha : b.chain? id with
  | none => exact ⟨rfl, hchain⟩
  | some a =>
      rw [ha] at hroomy
      dsimp only at hroomy ⊢
      by_cases hdue : b.settings.chainTimeout ≤ b.now - a.hopStarted
      · rw [if_pos hdue] at hroomy
        simp only [if_pos hdue]
        exact (h.count .hopTimeouts []).apply hsound hchain hroomy
      · simp only [if_neg hdue]
        exact ⟨trivial, hchain⟩

/-- Whether a chain is dropped is up to its own entry. -/
theorem dropAbandonedNotes_congr (hchain : b'.chain? id = b.chain? id) :
    b'.dropAbandonedNotes id = b.dropAbandonedNotes id ∧
      (b'.dropAbandoned id).chain? id = (b.dropAbandoned id).chain? id := by
  have hgone := chain?_dropChain_self b id
  have hgone' := chain?_dropChain_self b' id
  unfold dropAbandonedNotes
  rw [hchain]
  exact ⟨rfl, hgone'.trans hgone.symm⟩

/-- **A touch does and tells the same whatever has happened elsewhere**, as long as no queue has run
out of room. -/
theorem Elsewhere.touch (h : Elsewhere b b') (hsound : b'.registry.Sound)
    (hchain : b'.chain? t.id = b.chain? t.id) (hsuits : t.Suits (b.chain? t.id))
    (hroomy : Roomy b (b'.touchNotes t)) :
    b'.touchNotes t = b.touchNotes t ∧ (b'.touch t).chain? t.id = (b.touch t).chain? t.id := by
  cases t with
  | answered ext r => exact h.respond hsound hchain hsuits hroomy
  | givenUp id => exact h.giveUp hsound hchain hroomy
  | judged id => exact h.expire hsound hchain hroomy
  | dropped id => exact dropAbandonedNotes_congr hchain

/-! ## one after another -/

theorem touches_append (b : Broker) (L L' : List Touch) :
    b.touches (L ++ L') = (b.touches L).touches L' := List.foldl_append

theorem touchesNotes_append (b : Broker) (L L' : List Touch) :
    b.touchesNotes (L ++ L') = b.touchesNotes L ++ (b.touches L).touchesNotes L' :=
  foldNotes_append touch touchNotes b L L'

/-- The first touch suits its chain as it is. -/
theorem Due.head (h : b.Due (t :: L)) : t.Suits (b.chain? t.id) := h.suits t List.mem_cons_self

/-- The later ones are of other chains. -/
theorem Due.ne (h : b.Due (t :: L)) {u : Touch} (hu : u ∈ L) : u.id ≠ t.id := by
  obtain ⟨hnot, _⟩ := List.nodup_cons.mp h.nodup
  exact fun hid => hnot (hid ▸ List.mem_map_of_mem hu)

/-- What comes later stays due. -/
theorem Due.tail (h : b.Due (t :: L)) : (b.touch t).Due L := by
  refine ⟨(List.nodup_cons.mp h.nodup).2, fun u hu => ?_⟩
  rw [chain?_touch_of_ne h.head (h.ne hu)]
  exact h.suits u (List.mem_cons_of_mem t hu)

theorem Due.sublist (h : b.Due L) (hL : L'.Sublist L) : b.Due L' :=
  ⟨h.nodup.sublist (hL.map _), fun t ht => h.suits t (hL.subset ht)⟩

/-- Touches are due in any order and in any state with the same chains. -/
theorem Due.perm (h : b.Due L) (hperm : L'.Perm L)
    (hchain : ∀ id, b'.chain? id = b.chain? id) : b'.Due L' := by
  refine ⟨(hperm.map _).nodup_iff.mpr h.nodup, fun t ht => ?_⟩
  rw [hchain]
  exact h.suits t (hperm.mem_iff.mp ht)

/-- What every touch does, and goes on, some touches do. -/
theorem Due.induct {P : Broker → List Note → Broker → Prop} (hrefl : ∀ b, P b [] b)
    (htrans : ∀ b b' b'' N N', P b N b' → P b' N' b'' → P b (N ++ N') b'')
    (htouch : ∀ b t, b.registry.Sound → t.Suits (b.chain? t.id) → P b (b.touchNotes t) (b.touch t))
    (hsound : b.registry.Sound) (h : b.Due L) : P b (b.touchesNotes L) (b.touches L) := by
  induction L generalizing b with
  | nil => exact hrefl b
  | cons t L ih =>
      have hregistry := (carried_touch h.head).registry
      exact htrans _ _ _ _ _ (htouch b t hsound h.head)
        (ih (by rw [hregistry]; exact hsound) h.tail)

/-- Any touches that are due only carry chains on. -/
theorem carried_touches (hsound : b.registry.Sound) (h : b.Due L) : Carried b (b.touches L) :=
  h.induct (P := fun b _ b' => Carried b b') Carried.refl (fun _ _ _ _ _ => Carried.trans)
    (fun _ _ _ => carried_touch) hsound

/-- They feed the queues what they tell. -/
theorem fed_touches (hsound : b.registry.Sound) (h : b.Due L) :
    Fed (b.touchesNotes L) b (b.touches L) :=
  h.induct (P := fun b N b' => Fed N b b') Fed.refl (fun _ _ _ _ _ => Fed.trans)
    (fun _ t hsound _ => fed_touch hsound t) hsound

/-- They are a turn. -/
theorem turn_touches (hsound : b.registry.Sound) (h : b.Due L) :
    Turn b (b.touchesNotes L) (b.touches L) :=
  h.induct (P := Turn) Turn.refl (fun _ _ _ _ _ => Turn.trans) (fun _ _ _ => turn_touch) hsound

/-- They give no chain a second entry. -/
theorem Distinct.touches (hb : b.Distinct) (hsound : b.registry.Sound) (h : b.Due L) :
    (b.touches L).Distinct :=
  h.induct (P := fun b _ b' => b.Distinct → b'.Distinct) (fun _ hb => hb)
    (fun _ _ _ _ _ hfirst hrest hb => hrest (hfirst hb)) (fun _ _ _ ht hb => hb.touch ht) hsound hb

/-- A chain that is not among those touched stays as it is. -/
theorem chain?_touches_of_not_mem (h : b.Due L) (hid : id ∉ L.map Touch.id) :
    (b.touches L).chain? id = b.chain? id := by
  induction L generalizing b with
  | nil => rfl
  | cons t L ih =>
      rw [List.map_cons, List.mem_cons, not_or] at hid
      obtain ⟨hne, hnot⟩ := hid
      exact (ih h.tail hnot).trans (chain?_touch_of_ne h.head hne)

/-- **Each chain fares as if it were touched alone**, and so it is told. -/
theorem Elsewhere.touches (h : Elsewhere b b') (hsound : b'.registry.Sound) (hdue : b'.Due L)
    (hchain : ∀ t ∈ L, b'.chain? t.id = b.chain? t.id) (hroomy : Roomy b (b'.touchesNotes L)) :
    b'.touchesNotes L = L.flatMap b.touchNotes ∧
      ∀ t ∈ L, (b'.touches L).chain? t.id = (b.touch t).chain? t.id := by
  induction L generalizing b' with
  | nil => exact ⟨rfl, fun t ht => by cases ht⟩
  | cons t L ih =>
      obtain ⟨hfirst, hrest⟩ := roomy_append.mp hroomy
      have hsuits := hdue.head
      rw [hchain t List.mem_cons_self] at hsuits
      obtain ⟨hnotes, hself⟩ := h.touch hsound (hchain t List.mem_cons_self) hsuits hfirst
      have hcarried := carried_touch hdue.head
      have hother : ∀ u ∈ L, (b'.touch t).chain? u.id = b.chain? u.id := fun u hu =>
        (chain?_touch_of_ne hdue.head (hdue.ne hu)).trans (hchain u (List.mem_cons_of_mem t hu))
      obtain ⟨hlater, hothers⟩ := ih (h.carried hcarried (fed_touch hsound t))
        (by rw [hcarried.registry]; exact hsound) hdue.tail hother hrest
      refine ⟨?_, List.forall_mem_cons.mpr ⟨?_, hothers⟩⟩
      · rw [List.flatMap_cons, ← hnotes, ← hlater]
        rfl
      · exact (chain?_touches_of_not_mem hdue.tail (List.nodup_cons.mp hdue.nodup).1).trans hself

/-! ## in another order -/

/-- A touch is found by its chain, wherever it stands. -/
theorem filter_eq_singleton (hL : (L.map Touch.id).Nodup) (ht : t ∈ L) :
    L.filter (·.id = t.id) = [t] := by
  refine List.perm_singleton.mp ?_
  have hsplit := (perm_cons_filter_ne hL ht).filter (·.id = t.id)
  rw [List.filter_cons_of_pos (by simp), List.filter_filter] at hsplit
  simpa using hsplit

/-- So an order has no part in it. -/
theorem filter_perm (hL : (L.map Touch.id).Nodup) (hperm : L'.Perm L) :
    L'.filter (·.id = id) = L.filter (·.id = id) := by
  by_cases hid : id ∈ L.map Touch.id
  · obtain ⟨t, ht, rfl⟩ := List.mem_map.mp hid
    rw [filter_eq_singleton hL ht, filter_eq_singleton ((hperm.map _).nodup_iff.mpr hL)
      (hperm.mem_iff.mpr ht)]
  · have hnone : L.filter (·.id = id) = [] := by
      rw [List.filter_eq_nil_iff]
      intro t ht hself
      exact hid (List.mem_map.mpr ⟨t, ht, by simpa using hself⟩)
    have hsplit := hperm.filter (·.id = id)
    rw [hnone] at hsplit ⊢
    exact hsplit.eq_nil

/-- What is told of a chain while chains are touched is what the touches meant for it tell. -/
theorem filter_touchNotes (hsuits : ∀ t ∈ L, t.Suits (b.chain? t.id)) (id : UInt64) :
    (L.flatMap b.touchNotes).filter (·.concerns id) =
      (L.filter (·.id = id)).flatMap b.touchNotes := by
  induction L with
  | nil => rfl
  | cons t L ih =>
      have hself := concerns_touchNotes (hsuits t List.mem_cons_self) id
      have hrest := ih fun u hu => hsuits u (List.mem_cons_of_mem t hu)
      rw [List.flatMap_cons, List.filter_append, hrest]
      by_cases hid : t.id = id
      · rw [List.filter_cons_of_pos (by simpa using hid), List.flatMap_cons,
          List.filter_eq_self.mpr fun n hn => by rw [hself n hn]; simpa using hid]
      · rw [List.filter_cons_of_neg (by simpa using hid),
          List.filter_eq_nil_iff.mpr fun n hn => by rw [hself n hn]; simpa using hid]
        rfl

/-- A table is known by the chains that it has under each id. -/
theorem chains_perm (hb : b.Distinct) (hb' : b'.Distinct)
    (hchain : ∀ id, b'.chain? id = b.chain? id) : b'.chains.Perm b.chains := by
  have hmem : ∀ {d : Broker}, d.Distinct → ∀ x, x ∈ d.chains ↔ d.chain? x.chain.id = some x :=
    fun hd x => ⟨chain?_of_mem hd, fun hx => (chain?_eq_some hx).1⟩
  refine (List.perm_ext_iff_of_nodup (List.Nodup.of_map _ hb') (List.Nodup.of_map _ hb)).mpr
    fun x => ?_
  rw [hmem hb, hmem hb', hchain]

/-- **The order in which chains are touched makes no difference**, nor does the order of the table,
as long as no queue runs out of room in either. -/
theorem indifferent_touches (hb : b.Distinct) (hsound : b.registry.Sound) (hdue : b.Due L)
    (hperm : L'.Perm L) {chains : List ActiveChain} (hchains : chains.Perm b.chains)
    (hroomy : Roomy b (b.touchesNotes L))
    (hroomy' : Roomy b (({ b with chains } : Broker).touchesNotes L')) :
    Indifferent b (b.touchesNotes L) (({ b with chains } : Broker).touchesNotes L')
      (b.touches L) (({ b with chains } : Broker).touches L') := by
  let b' : Broker := { b with chains }
  have hsame : ∀ id, b'.chain? id = b.chain? id := fun _ => chain?_of_perm hb hchains
  have hb' : b'.Distinct := (hchains.map _).nodup_iff.mpr hb
  have hdue' : b'.Due L' := hdue.perm hperm hsame
  obtain ⟨hnotes, hself⟩ := (Elsewhere.refl b).touches hsound hdue (fun _ _ => rfl) hroomy
  have helsewhere : Elsewhere b b' := ⟨rfl, rfl, rfl, fun _ hs => hs⟩
  obtain ⟨hnotes', hself'⟩ :=
    helsewhere.touches hsound hdue' (fun t _ => hsame t.id) hroomy'
  have hcarried := carried_touches hsound hdue
  have hcarried' : Carried b' (b'.touches L') := carried_touches hsound hdue'
  have htold : ∀ id, (b'.touchesNotes L').filter (·.concerns id) =
      (b.touchesNotes L).filter (·.concerns id) := by
    intro id
    have hsuits' : ∀ t ∈ L', t.Suits (b.chain? t.id) := fun t ht =>
      hdue.suits t (hperm.mem_iff.mp ht)
    rw [hnotes, hnotes', filter_touchNotes hdue.suits, filter_touchNotes hsuits',
      filter_perm hdue.nodup hperm]
  have hchain : ∀ id, (b'.touches L').chain? id = (b.touches L).chain? id := by
    intro id
    -- a chain that is touched is as the touch alone would leave it, any other is as it was
    by_cases hid : id ∈ L.map Touch.id
    · obtain ⟨t, ht, rfl⟩ := List.mem_map.mp hid
      exact (hself' t (hperm.mem_iff.mpr ht)).trans (hself t ht).symm
    · have hid' : id ∉ L'.map Touch.id := fun hmem => hid ((hperm.map _).mem_iff.mp hmem)
      exact (chain?_touches_of_not_mem hdue' hid').trans
        ((hsame id).trans (chain?_touches_of_not_mem hdue hid).symm)
  constructor
  · exact hcarried'.settings.trans hcarried.settings.symm
  · exact hcarried'.registry.trans hcarried.registry.symm
  · exact hcarried'.correlations.trans hcarried.correlations.symm
  · exact hcarried'.injected.trans hcarried.injected.symm
  · exact hcarried'.nextId.trans hcarried.nextId.symm
  · exact hcarried'.now.trans hcarried.now.symm
  · exact chains_perm (hb.touches hsound hdue) (Distinct.touches (b := b') hb' hsound hdue') hchain
  · exact hchain
  · intro id
    have hstanding : (b'.touches L').standing id = (b.touches L).standing id := by
      have hstart : b'.standing id = b.standing id := standing_eq (hsame id) rfl
      rw [(turn_touches (b := b') hsound hdue').standing, (turn_touches hsound hdue).standing,
        hstart, ← Standing.through_filter, htold, Standing.through_filter]
    exact congrArg Standing.kept hstanding
  · exact htold
  · intro s
    refine ⟨framesFor s (b.touchesNotes L), framesFor s (b'.touchesNotes L'), ?_,
      (fed_touches hsound hdue).queue s, (fed_touches (b := b') hsound hdue').queue s⟩
    rw [hnotes, hnotes', framesFor, framesFor]
    exact (hperm.flatMap_right _).filterMap _

/-- Before what has been fed, nothing else matters than the queues. -/
theorem Indifferent.behind (h : Indifferent b' N N' c c') (hlinks : b'.links = b.links) :
    Indifferent b N N' c c' := by
  refine { h with queue := fun s => ?_ }
  have hqueue : b'.queue? s = b.queue? s := by rw [queue?, queue?, hlinks]
  rw [← hqueue]
  exact h.queue s

end Broker

end Intercept
