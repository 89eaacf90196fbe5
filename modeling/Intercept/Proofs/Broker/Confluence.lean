import Intercept.Proofs.Broker.Independence

/-!
# Intercept.Proofs.Broker.Confluence

The order in which chains are come across makes no difference.

1. Two answers for different chains may come in either order.
2. An extension that leaves or is replaced gives its chains up in whatever
   order they stand in the table (`indifferent_release`).
3. Housekeeping drops and judges them in whatever order (`indifferent_sweep`).

Each of these is a list of touches, one for each chain at most, so all of it
is `indifferent_touches`.  The room in the queues is what chains do share:
where a queue runs out of it, the chain that comes first gets the place.
-/

namespace Intercept.Broker

variable {b : Broker}

/-! ## what goes from chain to chain -/

/-- Touches that are made for these chains touch these chains. -/
theorem map_id_of {f : UInt64 → Touch} (hf : ∀ id, (f id).id = id) (ids : List UInt64) :
    (ids.map f).map Touch.id = ids := by
  rw [List.map_map]
  simp [Function.comp_def, hf]

theorem release_eq (b : Broker) (ext : String) (session : Nat) :
    b.release ext session =
      (b.forgetSession ext session).touches ((b.heldBy ext session).map .givenUp) := by
  rw [release, touches, List.foldl_map]
  rfl

theorem releaseNotes_eq (b : Broker) (ext : String) (session : Nat) :
    b.releaseNotes ext session =
      (b.forgetSession ext session).touchesNotes ((b.heldBy ext session).map .givenUp) := by
  rw [releaseNotes, touchesNotes, foldNotes_map]
  rfl

theorem due_release (hb : b.Distinct) (ext : String) (session : Nat) :
    (b.forgetSession ext session).Due ((b.heldBy ext session).map .givenUp) := by
  constructor
  · rw [map_id_of fun _ => rfl]
    exact hb.sublist (List.filter_sublist.map _)
  · intro t ht
    obtain ⟨id, _, rfl⟩ := List.mem_map.mp ht
    trivial

/-- It makes no difference in which order the chains of a session are given up. -/
theorem indifferent_release (hb : b.Distinct) (hsound : b.registry.Sound) (ext : String)
    (session : Nat) {chains : List ActiveChain} (hchains : chains.Perm b.chains)
    (hroomy : Roomy b (b.releaseNotes ext session))
    (hroomy' : Roomy b (({ b with chains } : Broker).releaseNotes ext session)) :
    Indifferent b (b.releaseNotes ext session)
      (({ b with chains } : Broker).releaseNotes ext session) (b.release ext session)
      (({ b with chains } : Broker).release ext session) := by
  have hheld : (({ b with chains } : Broker).heldBy ext session).Perm (b.heldBy ext session) :=
    (hchains.filter _).map _
  rw [releaseNotes_eq] at hroomy hroomy'
  rw [releaseNotes_eq, releaseNotes_eq, release_eq, release_eq]
  exact (indifferent_touches (b := b.forgetSession ext session) hb hsound
    (due_release hb ext session) (hheld.map _) hchains hroomy hroomy').behind rfl

/-- What housekeeping does: it drops the chains that nobody awaits, and judges the others. -/
def rounds (b : Broker) : List Touch :=
  b.abandoned.map .dropped ++ ((b.chains.filter (·.awaited)).map (·.chain.id)).map .judged

theorem prune_eq (b : Broker) : b.prune = b.forgetOld.touches (b.abandoned.map .dropped) := by
  rw [prune, touches, List.foldl_map]
  rfl

theorem pruneNotes_eq_touchesNotes (b : Broker) :
    b.pruneNotes = b.forgetOld.touchesNotes (b.abandoned.map .dropped) := by
  rw [pruneNotes, touchesNotes, foldNotes_map]
  rfl

theorem sweep_eq (hb : b.Distinct) : b.sweep.2 = b.forgetOld.touches b.rounds := by
  rw [rounds, touches_append, ← prune_eq, ← chains_prune hb, touches, List.foldl_map]
  rfl

theorem sweepNotes_eq (hb : b.Distinct) : b.sweepNotes = b.forgetOld.touchesNotes b.rounds := by
  rw [rounds, touchesNotes_append, ← prune_eq, ← pruneNotes_eq_touchesNotes, ← chains_prune hb,
    touchesNotes, foldNotes_map]
  rfl

/-- Housekeeping comes across each chain once. -/
theorem due_rounds (hb : b.Distinct) : b.forgetOld.Due b.rounds := by
  constructor
  · have hsplit := List.filter_append_perm (!·.awaited) b.chains
    simp only [Bool.not_not] at hsplit
    rw [rounds, List.map_append, map_id_of fun _ => rfl, map_id_of fun _ => rfl, abandoned,
      ← List.map_append]
    exact (hsplit.map _).nodup_iff.mpr hb
  · intro t ht
    cases List.mem_append.mp ht with
    | inl hdropped =>
        obtain ⟨id, hid, rfl⟩ := List.mem_map.mp hdropped
        exact fun a ha => awaited_of_mem_abandoned hb hid ha
    | inr hjudged =>
        obtain ⟨id, _, rfl⟩ := List.mem_map.mp hjudged
        trivial

/-- It makes no difference in which order housekeeping comes across the chains. -/
theorem indifferent_prune (hb : b.Distinct) (hsound : b.registry.Sound) {chains : List ActiveChain}
    (hchains : chains.Perm b.chains) (hroomy : Roomy b b.pruneNotes)
    (hroomy' : Roomy b ({ b with chains } : Broker).pruneNotes) :
    Indifferent b b.pruneNotes ({ b with chains } : Broker).pruneNotes b.prune
      ({ b with chains } : Broker).prune := by
  have habandoned : ({ b with chains } : Broker).abandoned.Perm b.abandoned :=
    (hchains.filter _).map _
  have hdue : b.forgetOld.Due (b.abandoned.map .dropped) :=
    (due_rounds hb).sublist (List.sublist_append_left _ _)
  rw [pruneNotes_eq_touchesNotes] at hroomy hroomy'
  rw [pruneNotes_eq_touchesNotes, pruneNotes_eq_touchesNotes, prune_eq, prune_eq]
  exact (indifferent_touches (b := b.forgetOld) hb hsound hdue (habandoned.map _) hchains hroomy
    hroomy').behind rfl

theorem indifferent_sweep (hb : b.Distinct) (hsound : b.registry.Sound) {chains : List ActiveChain}
    (hchains : chains.Perm b.chains) (hroomy : Roomy b b.sweepNotes)
    (hroomy' : Roomy b ({ b with chains } : Broker).sweepNotes) :
    Indifferent b b.sweepNotes ({ b with chains } : Broker).sweepNotes b.sweep.2
      ({ b with chains } : Broker).sweep.2 := by
  have hb' : Distinct { b with chains } := (hchains.map _).nodup_iff.mpr hb
  have hrounds : ({ b with chains } : Broker).rounds.Perm b.rounds :=
    (((hchains.filter _).map _).map _).append (((hchains.filter _).map _).map _)
  rw [sweepNotes_eq hb] at hroomy
  rw [sweepNotes_eq hb'] at hroomy'
  rw [sweepNotes_eq hb, sweepNotes_eq hb', sweep_eq hb, sweep_eq hb']
  exact (indifferent_touches (b := b.forgetOld) hb hsound (due_rounds hb) hrounds hchains hroomy
    hroomy').behind rfl

/-- So it is if there is nothing to do. -/
theorem indifferent_still (hb : b.Distinct) (hsound : b.registry.Sound) {chains : List ActiveChain}
    (hchains : chains.Perm b.chains) : Indifferent b [] [] b { b with chains } :=
  indifferent_touches (L := []) hb hsound ⟨List.nodup_nil, fun _ ht => by cases ht⟩ .nil hchains rfl
    rfl

theorem indifferent_register (hb : b.Distinct) (hsound : b.registry.Sound) (ext : String)
    (is : List Interest) (capacity : Nat) {chains : List ActiveChain}
    (hchains : chains.Perm b.chains)
    (hroomy : Roomy (b.enrolled ext is capacity) (b.registerNotes ext is capacity))
    (hroomy' : Roomy (b.enrolled ext is capacity)
      (({ b with chains } : Broker).registerNotes ext is capacity)) :
    Indifferent (b.enrolled ext is capacity) (b.registerNotes ext is capacity)
      (({ b with chains } : Broker).registerNotes ext is capacity) (b.register ext is capacity)
      (({ b with chains } : Broker).register ext is capacity) := by
  have hsound' : (b.enrolled ext is capacity).registry.Sound := hsound.register ext is
  unfold registerNotes Broker.register at *
  dsimp only at *
  cases hg : b.registry.get? ext with
  | none =>
      exact (indifferent_still (b := (b.enrolled ext is capacity).countConnected 1) hb hsound'
        hchains).behind rfl
  | some old =>
      rw [hg] at hroomy hroomy'
      exact indifferent_release (b := b.enrolled ext is capacity) hb hsound' ext old.session hchains
        hroomy hroomy'

theorem indifferent_removed (hb : b.Distinct) (hsound : b.registry.Sound)
    {found : Option (Registration × Registry)} (hfound : ∀ old r, found = some (old, r) → r.Sound)
    {chains : List ActiveChain} (hchains : chains.Perm b.chains)
    (hroomy : Roomy b (b.removedNotes found))
    (hroomy' : Roomy b (({ b with chains } : Broker).removedNotes found)) :
    Indifferent b (b.removedNotes found) (({ b with chains } : Broker).removedNotes found)
      (b.removed found) (({ b with chains } : Broker).removed found) := by
  cases found with
  | none => exact indifferent_still hb hsound hchains
  | some p =>
      obtain ⟨old, r⟩ := p
      let left : Broker := { b with registry := r }
      exact (indifferent_release (b := left.countConnected (-1)) hb (hfound old r rfl) old.ext
        old.session hchains hroomy hroomy').behind rfl

end Intercept.Broker

namespace Intercept

/-- The event goes from one chain to the next. -/
def Event.Roams : Event → Prop
  | register .. | unregister _ | unregisterSession .. | prune | sweep => True
  | _ => False

namespace Broker

variable {b : Broker}

/-- The order of the table means nothing to events that go over it. -/
theorem indifferent_step (hb : b.Distinct) (hsound : b.registry.Sound) {e : Event} (he : e.Roams)
    {chains : List ActiveChain} (hchains : chains.Perm b.chains)
    (hroomy : Roomy (b.readied e) (b.notes e))
    (hroomy' : Roomy (b.readied e) (({ b with chains } : Broker).notes e)) :
    Indifferent (b.readied e) (b.notes e) (({ b with chains } : Broker).notes e) (b.step e)
      (({ b with chains } : Broker).step e) := by
  cases e with
  | register ext is capacity =>
      exact indifferent_register hb hsound ext is capacity hchains hroomy hroomy'
  | unregister ext =>
      exact indifferent_removed hb hsound (fun _ _ => sound_of_unregister? hsound) hchains
        hroomy hroomy'
  | unregisterSession ext session =>
      exact indifferent_removed hb hsound (fun _ _ => sound_of_unregisterSession? hsound) hchains
        hroomy hroomy'
  | prune => exact indifferent_prune hb hsound hchains hroomy hroomy'
  | sweep => exact indifferent_sweep hb hsound hchains hroomy hroomy'
  | _ => cases he

/-! ## two answers -/

/-- An answer for a chain that waits is taken from its holder only. -/
theorem suits_of_taken {ext : String} {r : Response} (hin : (b.chain? r.packetId).isSome)
    (hok : (b.respond ext r).1 = .ok ()) : (Touch.answered ext r).Suits (b.chain? r.packetId) := by
  cases b.answered ext r with
  | rejected hresult =>
      rw [hresult] at hok
      cases hok
  | held ha hholder hext hid => exact ⟨_, _, ha, hholder, hext, hid⟩
  | owned hnone =>
      rw [hnone] at hin
      cases hin

/-- **Chains are independent.**  Two answers for different chains, both of which would be taken, are
both taken in either order, and come to the same: the same table, copies and registry, the same
outcomes for the callers, and the same new frames in every queue.  Nor does it matter in which order
the chains stand in the table when an event goes from one to the next: the same happens to each of
them.  All this goes as long as no queue runs out of room in either order. -/
theorem Reachable.independent {settings : BrokerSettings} (h : Reachable settings b) :
    (∀ ext r ext' r', r.packetId ≠ r'.packetId →
      (b.chain? r.packetId).isSome → (b.chain? r'.packetId).isSome →
      (b.respond ext r).1 = .ok () → (b.respond ext' r').1 = .ok () →
      let e := Event.respond ext r
      let e' := Event.respond ext' r'
      Roomy b (b.notes e ++ (b.step e).notes e') → Roomy b (b.notes e' ++ (b.step e').notes e) →
      ((b.step e').respond ext r).1 = (b.respond ext r).1 ∧
        ((b.step e).respond ext' r').1 = (b.respond ext' r').1 ∧
        Indifferent b (b.notes e ++ (b.step e).notes e') (b.notes e' ++ (b.step e').notes e)
          ((b.step e).step e') ((b.step e').step e)) ∧
      ∀ e : Event, e.Roams → ∀ chains : List ActiveChain, chains.Perm b.chains →
        let turned : Broker := { b with chains }
        Roomy (b.readied e) (b.notes e) → Roomy (b.readied e) (turned.notes e) →
        Indifferent (b.readied e) (b.notes e) (turned.notes e) (b.step e) (turned.step e) := by
  obtain ⟨J, hrun⟩ := h.exists_run
  have hb := hrun.distinct
  have hsound := h.tended.sound
  refine ⟨?_, fun e he chains hchains => indifferent_step hb hsound he hchains⟩
  intro ext r ext' r' hne hin hin' hok hok' e e' hroomy hroomy'
  have hsuits := suits_of_taken hin hok
  have hsuits' := suits_of_taken hin' hok'
  have hdue : b.Due [.answered ext r, .answered ext' r'] :=
    ⟨by simpa [Touch.id] using hne, by simpa using ⟨hsuits, hsuits'⟩⟩
  have hswapped : b.Due [.answered ext' r', .answered ext r] :=
    hdue.perm (.swap _ _ _) fun _ => rfl
  have hnotes : ∀ t u, b.touchesNotes [t, u] = b.touchNotes t ++ (b.touch t).touchNotes u := by
    intro t u
    simp [touchesNotes, foldNotes]
  have hsame := indifferent_touches hb hsound hdue (.swap _ _ []) (List.Perm.refl b.chains)
    (by rw [hnotes]; exact hroomy) (by rw [hnotes]; exact hroomy')
  rw [hnotes, hnotes] at hsame
  refine ⟨?_, ?_, hsame⟩
  · exact (congrArg Prod.fst (touch_answered hswapped.tail.head).1).trans hok.symm
  · exact (congrArg Prod.fst (touch_answered hdue.tail.head).1).trans hok'.symm

/-- Two chains wait at one extension, and there is so much room in the queue of the next one. -/
def sharing (room : Nat) : Broker :=
  [Event.register "first" [{ id := 1, kind := .net .genericText }] 4,
    .register "second" [{ id := 1, kind := .net .genericText }] room,
    .submit [2, 0, 0, 0, 0] .clientToServer 0,
    .submit [2, 0, 0, 0, 0] .clientToServer 0].foldl Broker.step (.new {})

theorem reachable_sharing (room : Nat) : Reachable {} (sharing room) := Reachable.new.foldl _

/-- With room for both, both chains get to the next extension, in whatever order they are answered,
and in whatever order they are given up; only their frames change places. -/
theorem independent_at_one_link :
    let b := sharing 2
    let turned : Broker := { b with chains := b.chains.reverse }
    let e := Event.respond "first" ⟨1, 1, .pass⟩
    let e' := Event.respond "first" ⟨2, 1, .pass⟩
    let gone := Event.unregister "first"
    Indifferent b (b.notes e ++ (b.step e).notes e') (b.notes e' ++ (b.step e').notes e)
        ((b.step e).step e') ((b.step e').step e) ∧
      Indifferent b (b.notes gone) (turned.notes gone) (b.step gone) (turned.step gone) ∧
      (((b.step e).step e').queued 2).map (·.packetId) = [1, 2] ∧
      (((b.step e').step e).queued 2).map (·.packetId) = [2, 1] := by
  obtain ⟨hanswers, hevents⟩ := (reachable_sharing 2).independent
  have htaken := hanswers "first" ⟨1, 1, .pass⟩ "first" ⟨2, 1, .pass⟩ (by decide) (by cbv) (by cbv)
    (by cbv) (by cbv) (by unfold Roomy; cbv) (by unfold Roomy; cbv)
  have hgone := hevents (.unregister "first") trivial (sharing 2).chains.reverse
    (List.reverse_perm _) (by unfold Roomy; cbv) (by unfold Roomy; cbv)
  exact ⟨htaken.2.2, hgone, by cbv, by cbv⟩

/-- With room for one, it is for the chain that is answered first. -/
example :
    let e := Event.respond "first" ⟨1, 1, .pass⟩
    let e' := Event.respond "first" ⟨2, 1, .pass⟩
    ((((sharing 1).step e).step e').chains.map (·.chain.id),
      (((sharing 1).step e').step e).chains.map (·.chain.id)) = ([1], [2]) := by
  cbv

end Broker

end Intercept
