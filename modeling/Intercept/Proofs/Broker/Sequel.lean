import Intercept.Proofs.Broker.Operation

/-!
# Intercept.Proofs.Broker.Sequel

What follows what in the notes of one event.

```
n.next? r mode        what happens to a chain behind its start or a directive
Noted (step, c) m     m is the note of that
Orderly e r mode N    each such note is followed at once by the note of what happens next,
                      and only a submission starts a chain
```

An event changes the registry at most once, before it touches any chain, so
all its notes go by the registry that it leaves behind
(`orderly_notes`).
-/

namespace Intercept

/-- What happens to a chain behind a note, and the chain then. -/
def Note.next? (r : Registry) (mode : DecodeMode) : Note → Option (Step × Chain)
  | started c => some (c.goOn r)
  | directed c _ d => some (c.advance r mode d)
  | happened _ | handed .. | ended .. | dropped _ | copied .. | redeemed .. | injected .. => none

/-- The note says that this happens to the chain. -/
def Noted (next : Step × Chain) (m : Note) : Prop :=
  match next.1 with
  | .dispatch client => ∃ sent, m = .handed next.2 client sent
  | .finished => m = .ended next.2 (.forward next.2.outgoing)
  | .cancelled => m = .ended next.2 (.cancelled next.2.outgoing)

/-- Every start and every directive is followed by the note of what happens next. -/
def Heeds (r : Registry) (mode : DecodeMode) : List Note → Prop
  | [] => True
  | n :: N => (∀ next, n.next? r mode = some next → ∃ m, N.head? = some m ∧ Noted next m) ∧
      Heeds r mode N

/-- The notes are those of one event, which leaves this registry. -/
structure Orderly (e : Event) (r : Registry) (mode : DecodeMode) (N : List Note) : Prop where
  starts : ∀ c, .started c ∈ N → e = .submit c.bytes c.direction c.flags
  heeds : Heeds r mode N

/-- Notes that heed what happens next do so one behind the other. -/
theorem Heeds.append {r : Registry} {mode : DecodeMode} {N M : List Note} (hN : Heeds r mode N)
    (hM : Heeds r mode M) : Heeds r mode (N ++ M) := by
  induction N with
  | nil => exact hM
  | cons n ns ih =>
      rw [List.cons_append]
      refine ⟨fun next hnext => ?_, ih hN.2⟩
      obtain ⟨m, hm, hnoted⟩ := hN.1 next hnext
      exact ⟨m, by rw [List.head?_append, hm]; rfl, hnoted⟩

/-- So does the later part of such notes. -/
theorem Heeds.of_append {r : Registry} {mode : DecodeMode} {N M : List Note}
    (h : Heeds r mode (N ++ M)) : Heeds r mode M := by
  induction N with
  | nil => exact h
  | cons n ns ih => exact ih h.2

variable {e : Event} {r : Registry} {mode : DecodeMode} {N M : List Note}

theorem orderly_nil : Orderly e r mode [] :=
  ⟨fun c hc => (by cases hc), trivial⟩

theorem Orderly.append (hN : Orderly e r mode N) (hM : Orderly e r mode M) :
    Orderly e r mode (N ++ M) :=
  ⟨fun c hc => (List.mem_append.mp hc).elim (hN.starts c) (hM.starts c), hN.heeds.append hM.heeds⟩

/-- A note in front of others, and behind it what happens next. -/
theorem Orderly.cons {n : Note} (h : Orderly e r mode N)
    (hstarts : ∀ c, n = .started c → e = .submit c.bytes c.direction c.flags)
    (hnext : ∀ next, n.next? r mode = some next → ∃ m, N.head? = some m ∧ Noted next m) :
    Orderly e r mode (n :: N) := by
  refine ⟨fun c hc => ?_, hnext, h.heeds⟩
  cases List.mem_cons.mp hc with
  | inl he => exact hstarts c he.symm
  | inr hold => exact h.starts c hold

/-- Notes behind which nothing happens may stand anywhere. -/
theorem orderly_of_quiet (h : ∀ n ∈ N, n.next? r mode = none) : Orderly e r mode N := by
  induction N with
  | nil => exact orderly_nil
  | cons n ns ih =>
      have hn := h n List.mem_cons_self
      refine (ih fun m hm => h m (List.mem_cons_of_mem n hm)).cons (fun c hc => ?_)
        fun next hnext => ?_
      · rw [hc] at hn
        cases hn
      · rw [hn] at hnext
        cases hnext

/-- Notes about no chain are orderly, whatever the event. -/
theorem orderly_of_silent (h : ∀ n ∈ N, n.chain? = none) : Orderly e r mode N := by
  refine orderly_of_quiet fun n hn => ?_
  have hnone := h n hn
  cases n with
  | happened | copied | redeemed | injected => rfl
  | started | directed | handed | ended | dropped => cases hnone

namespace Broker

/-- The broker goes by this registry and this way to decode. -/
structure Under (r : Registry) (mode : DecodeMode) (b : Broker) : Prop where
  registry : b.registry = r
  mode : b.settings.decodeMode = mode

theorem under_self (b : Broker) : b.Under b.registry b.settings.decodeMode := ⟨rfl, rfl⟩

/-- Carrying chains on keeps the registry and the way to decode. -/
theorem Under.carried {b b' : Broker} (h : b.Under r mode) (hc : Carried b b') :
    b'.Under r mode :=
  ⟨hc.registry.trans h.registry, (congrArg _ hc.settings).trans h.mode⟩

theorem Under.count {b : Broker} (h : b.Under r mode) (counter : Counter)
    (labels : List (String × String)) : (b.count counter labels).Under r mode :=
  ⟨h.registry, h.mode⟩

theorem Under.told {b b' : Broker} (h : b.Under r mode) (ht : Told b b') : b'.Under r mode :=
  ⟨ht.registry.trans h.registry, (congrArg _ ht.settings).trans h.mode⟩

/-! ## chains -/

/-- What carrying a chain on adds begins with what happens to the chain. -/
theorem orderly_driveNotes {b : Broker} (hb : b.Under r mode) (a : ActiveChain) (step : Step) :
    Orderly e r mode (b.driveNotes a step) ∧
      ∃ m, (b.driveNotes a step).head? = some m ∧ Noted (step, a.chain) m := by
  have hquiet : ∀ n : Note, n.next? r mode = none → Orderly e r mode [n] := by
    intro n hn
    refine orderly_of_quiet fun m hm => ?_
    rw [List.mem_singleton.mp hm]
    exact hn
  obtain ⟨rfl, rfl⟩ := hb
  induction b, a, step using drive.induct with
  | case1 b a =>
      rw [driveNotes]
      exact ⟨hquiet _ rfl, _, rfl, rfl⟩
  | case2 b a =>
      rw [driveNotes]
      exact ⟨hquiet _ rfl, _, rfl, rfl⟩
  | case3 b a client sent hs =>
      rw [driveNotes, hs]
      exact ⟨hquiet _ rfl, _, rfl, true, rfl⟩
  | case4 b a client hs next ih =>
      obtain ⟨hrest, hhead⟩ := ih hquiet
      rw [driveNotes, hs]
      refine ⟨?_, _, rfl, false, rfl⟩
      have hdirected := hrest.cons
        (n := .directed a.chain .disconnect b.settings.onDisconnect.directive)
        (fun c hc => by cases hc) fun next' hnext => by
          cases hnext
          exact hhead
      exact hdirected.cons (fun c hc => by cases hc) fun next' hnext => by cases hnext

/-- A directive is followed by the note of what it leads to. -/
theorem orderly_applyNotes {b : Broker} (hb : b.Under r mode) (id : UInt64) (cause : Cause)
    (d : Directive) : Orderly e r mode (b.applyNotes id cause d) := by
  unfold applyNotes
  cases hc : b.chain? id with
  | none => exact orderly_nil
  | some a =>
      obtain ⟨hrest, hhead⟩ := orderly_driveNotes (e := e) hb
        { a with chain := (a.chain.advance b.registry b.settings.decodeMode d).2 }
        (a.chain.advance b.registry b.settings.decodeMode d).1
      refine hrest.cons (fun c hc => by cases hc) fun next hnext => ?_
      cases hnext
      rw [← hb.registry, ← hb.mode]
      exact hhead

theorem orderly_expireNotes {b : Broker} (hb : b.Under r mode) (id : UInt64) :
    Orderly e r mode (b.expireNotes id) := by
  cases b.judged id with
  | timely _ _ hnotes => rw [hnotes]; exact orderly_nil
  | late _ _ _ hnotes => rw [hnotes]; exact orderly_applyNotes (hb.count _ _) _ _ _

/-! ## one after another -/

/-- Steps that keep the registry and are orderly one by one are orderly together. -/
theorem orderly_foldNotes {α : Type} {f : Broker → α → Broker} {notes : Broker → α → List Note}
    (hstep : ∀ b x, b.Under r mode → (f b x).Under r mode ∧ Orderly e r mode (notes b x))
    {b : Broker} (hb : b.Under r mode) (xs : List α) :
    Orderly e r mode (foldNotes f notes b xs) := by
  induction xs generalizing b with
  | nil => exact orderly_nil
  | cons x xs ih =>
      obtain ⟨hnext, hnotes⟩ := hstep b x hb
      exact hnotes.append (ih hnext)

/-- The chains of a session that goes are given up one after another. -/
theorem orderly_releaseNotes {b : Broker} (hb : b.Under r mode) (ext : String) (session : Nat) :
    Orderly e r mode (b.releaseNotes ext session) := by
  have hforgot : (b.forgetSession ext session).Under r mode := ⟨hb.registry, hb.mode⟩
  exact orderly_foldNotes (fun b id hb => ⟨hb.carried (carried_giveUp b id),
    orderly_applyNotes (hb.count _ _) id _ _⟩) hforgot _

/-- Hops are judged one after another by one registry. -/
theorem orderly_foldNotes_expire {b : Broker} (hb : b.Under r mode) (ids : List UInt64) :
    Orderly e r mode (foldNotes expire expireNotes b ids) :=
  orderly_foldNotes (fun b id hb => ⟨hb.carried (carried_expire b id), orderly_expireNotes hb id⟩)
    hb ids

/-- The chains of a replaced session go by the registry with the new one. -/
theorem orderly_registerNotes (b : Broker) (ext : String) (is : List Interest) (capacity : Nat) :
    Orderly e (b.register ext is capacity).registry b.settings.decodeMode
      (b.registerNotes ext is capacity) := by
  unfold registerNotes register
  cases b.registry.get? ext with
  | none => exact orderly_nil
  | some old =>
      dsimp only
      rw [(carried_release _ _ _).registry]
      exact orderly_releaseNotes (b := b.enrolled ext is capacity) ⟨rfl, rfl⟩ ext _

/-- Those of a session that is taken away go by the registry without it. -/
theorem orderly_removedNotes (b : Broker) (found : Option (Registration × Registry)) :
    Orderly e (b.removed found).registry b.settings.decodeMode (b.removedNotes found) := by
  cases found with
  | none => exact orderly_nil
  | some p =>
      let left : Broker := ({ b with registry := p.2 } : Broker).countConnected (-1)
      unfold removed removedNotes
      dsimp only
      rw [(carried_release _ _ _).registry]
      exact orderly_releaseNotes (b := left) ⟨rfl, rfl⟩ _ _

/-! ## packets -/

/-- A chain starts for the packet that is submitted, and goes on at once. -/
theorem orderly_startNotes {b : Broker} (hb : b.Under r mode) (bytes : Bytes) (packet : Packet)
    (direction : Direction) (flags : UInt32) :
    Orderly (.submit bytes direction flags) r mode
      (b.startNotes bytes packet direction flags
        ((r.matching packet direction).filter (·.interest.isBlocking))) := by
  let c : Chain := { id := b.freshId, bytes, packet, direction, flags }
  have hgoes : c.nextFrom ((r.matching packet direction).filter (·.interest.isBlocking)) =
      c.goOn r := Chain.nextFrom_filter_isBlocking _ _
  unfold startNotes
  dsimp only
  rw [hgoes]
  obtain ⟨hrest, hhead⟩ := orderly_driveNotes (e := .submit bytes direction flags)
    (b := (b.drawn.addChain ⟨(c.goOn r).2, true, b.now, b.now⟩).count .chainsStarted [])
    ⟨hb.registry, hb.mode⟩ ⟨(c.goOn r).2, true, b.now, b.now⟩ (c.goOn r).1
  refine hrest.cons (fun d hd => ?_) fun next hnext => ?_
  · cases hd
    rfl
  · cases hnext
    exact hhead

/-- A submission starts no chain but its own. -/
theorem orderly_submitNotes (b : Broker) (bytes : Bytes) (direction : Direction) (flags : UInt32) :
    Orderly (.submit bytes direction flags) b.registry b.settings.decodeMode
      (b.submitNotes bytes direction flags) := by
  cases b.received bytes direction flags with
  | refused _ _ hnotes => rw [hnotes]; exact orderly_nil
  | passes _ _ _ hnotes => rw [hnotes]; exact orderly_of_silent (chain?_copyNotes _ _ _ _ _)
  | starts _ _ _ hnotes =>
      rw [hnotes]
      exact (orderly_of_silent (chain?_copyNotes _ _ _ _ _)).append
        (orderly_startNotes (b.under_self.told (told_copied _ _ _ _ _)) bytes _ direction flags)

/-- Packets leave the registry alone. -/
theorem registry_submit (b : Broker) (bytes : Bytes) (direction : Direction) (flags : UInt32) :
    (b.submit bytes direction flags).2.registry = b.registry := by
  cases b.received bytes direction flags with
  | refused _ hresult => rw [hresult]; rfl
  | passes _ _ hresult => rw [hresult]; exact (told_copied _ _ _ _ _).registry
  | starts _ _ hresult =>
      rw [hresult]
      exact (carried_drive _ _ _).registry.trans (told_copied _ _ _ _ _).registry

theorem registry_poll (b : Broker) (id : UInt64) : (b.poll id).2.registry = b.registry := by
  have hjudged := (carried_expire b id).registry
  cases snd_poll b id with
  | inl h => rw [h]; exact hjudged
  | inr h => rw [h]; exact hjudged

/-! ## answers and housekeeping -/

/-- The directive of an answer is followed by the note of what it leads to. -/
theorem orderly_respondNotes (b : Broker) (ext : String) (response : Response) :
    Orderly e b.registry b.settings.decodeMode (b.respondNotes ext response) := by
  cases b.answered ext response with
  | rejected _ hnotes => rw [hnotes]; exact orderly_nil
  | held _ _ _ _ _ hnotes => rw [hnotes]; exact orderly_applyNotes (b.under_self.count _ _) _ _ _
  | owned _ _ _ _ _ hnotes => rw [hnotes]; exact orderly_of_silent (chain?_redeemNotes _ _ _)

theorem registry_respond (b : Broker) (ext : String) (response : Response) :
    (b.respond ext response).2.registry = b.registry := by
  cases b.answered ext response with
  | rejected hresult => rw [hresult]; rfl
  | held _ _ _ _ hresult => rw [hresult]; exact (carried_apply _ _ _).registry
  | owned _ _ _ _ hresult => rw [hresult]; exact (posted_redeem _ _ _).registry

/-- An injection is about no chain. -/
theorem orderly_injectNotes (b : Broker) (bytes : Bytes) (direction : Direction) (flags : UInt32) :
    Orderly e r mode (b.injectNotes bytes direction flags) := by
  unfold injectNotes
  split
  · exact orderly_nil
  · exact orderly_of_silent (chain?_enqueueNotes _ _ _ _ _)

theorem registry_inject (b : Broker) (bytes : Bytes) (direction : Direction) (flags : UInt32) :
    (b.inject bytes direction flags).2.registry = b.registry := by
  unfold inject decode
  cases Packet.decode b.settings.decodeMode bytes with
  | error fault => rfl
  | ok packet => exact (posted_enqueue _ _ _ _ _).registry

/-- Nor is a chain started or directed while others are dropped. -/
theorem orderly_pruneNotes (b : Broker) :
    Orderly e b.registry b.settings.decodeMode b.pruneNotes := by
  have hforgot : b.forgetOld.Under b.registry b.settings.decodeMode := ⟨rfl, rfl⟩
  refine orderly_foldNotes (fun b id hb => ⟨hb.carried (carried_dropAbandoned b id), ?_⟩) hforgot _
  unfold dropAbandonedNotes
  split
  · refine orderly_of_quiet fun n hn => ?_
    rw [List.mem_singleton.mp hn]
    rfl
  · exact orderly_nil

/-- A sweep judges all hops by the registry that it leaves as it is. -/
theorem orderly_sweepNotes (b : Broker) :
    Orderly e b.registry b.settings.decodeMode b.sweepNotes := by
  have hforgot : b.forgetOld.Under b.registry b.settings.decodeMode := ⟨rfl, rfl⟩
  have hpruned : b.prune.Under b.registry b.settings.decodeMode := hforgot.carried (carried_prune b)
  exact (orderly_pruneNotes b).append (orderly_foldNotes_expire hpruned _)

theorem registry_sweep (b : Broker) : b.sweep.2.registry = b.registry :=
  (carried_sweep b).registry

/-! ## every event -/

/-- **The notes of an event go by the registry that the event leaves behind.** -/
theorem orderly_notes (b : Broker) (e : Event) :
    Orderly e (b.step e).registry b.settings.decodeMode (b.notes e) := by
  cases e with
  | register ext is capacity => exact orderly_registerNotes b ext is capacity
  | unregister ext => exact orderly_removedNotes b _
  | unregisterSession ext session => exact orderly_removedNotes b _
  | submit bytes direction flags =>
      have h := orderly_submitNotes b bytes direction flags
      rw [← registry_submit b bytes direction flags] at h
      exact h
  | poll id =>
      have h := orderly_expireNotes (e := .poll id) b.under_self id
      rw [← registry_poll b id] at h
      exact h
  | expire id =>
      have h := orderly_expireNotes (e := .expire id) b.under_self id
      rw [← (carried_expire b id).registry] at h
      exact h
  | respond ext response =>
      have h := orderly_respondNotes (e := .respond ext response) b ext response
      rw [← registry_respond b ext response] at h
      exact h
  | inject bytes direction flags => exact orderly_injectNotes b bytes direction flags
  | prune =>
      have h := orderly_pruneNotes (e := .prune) b
      have hregistry : b.prune.registry = b.registry := (carried_prune b).registry
      rw [← hregistry] at h
      exact h
  | sweep =>
      have h := orderly_sweepNotes (e := .sweep) b
      rw [← registry_sweep b] at h
      exact h
  | abandon | later | takeFrames | closeLink | takeInjected | closeInjected => exact orderly_nil

/-- A registration changes the registry once. -/
theorem registry_register (b : Broker) (ext : String) (is : List Interest) (capacity : Nat) :
    (b.register ext is capacity).registry = b.registry.register ext is := by
  unfold register
  cases b.registry.get? ext with
  | none => rfl
  | some old => exact (carried_release _ _ _).registry

theorem now_register (b : Broker) (ext : String) (is : List Interest) (capacity : Nat) :
    (b.register ext is capacity).now = b.now := by
  unfold register
  cases b.registry.get? ext with
  | none => rfl
  | some old => exact (carried_release _ _ _).now

/-- Taking an extension away changes the registry once, or not at all. -/
theorem registry_unregister (b : Broker) (ext : String) :
    (b.unregister ext).registry = b.registry ∨
      (b.unregister ext).registry = b.registry.remove ext := by
  unfold unregister Registry.unregister?
  cases b.registry.get? ext with
  | none => exact .inl rfl
  | some old => exact .inr (carried_release _ _ _).registry

theorem registry_unregisterSession (b : Broker) (ext : String) (session : Nat) :
    (b.unregisterSession ext session).registry = b.registry ∨
      (b.unregisterSession ext session).registry = b.registry.remove ext := by
  unfold unregisterSession Registry.unregisterSession?
  split
  · exact registry_unregister b ext
  · exact .inl rfl

/-- The registry changes only when somebody registers or is removed. -/
theorem registry_step (b : Broker) (e : Event) :
    (b.step e).registry = b.registry ∨
      (∃ ext is capacity, e = .register ext is capacity ∧
        (b.step e).registry = b.registry.register ext is) ∨
      ∃ ext, (b.step e).registry = b.registry.remove ext := by
  cases e with
  | register ext is capacity =>
      exact .inr (.inl ⟨ext, is, capacity, rfl, registry_register b ext is capacity⟩)
  | unregister ext =>
      exact (registry_unregister b ext).imp_right fun h => .inr ⟨ext, h⟩
  | unregisterSession ext session =>
      exact (registry_unregisterSession b ext session).imp_right fun h => .inr ⟨ext, h⟩
  | submit bytes direction flags => exact .inl (registry_submit b bytes direction flags)
  | poll id => exact .inl (registry_poll b id)
  | expire id => exact .inl (carried_expire b id).registry
  | abandon id => exact .inl ((carried_abandon b id).registry)
  | respond ext response => exact .inl (registry_respond b ext response)
  | inject bytes direction flags => exact .inl (registry_inject b bytes direction flags)
  | prune => exact .inl (carried_prune b).registry
  | sweep => exact .inl (registry_sweep b)
  | later | takeFrames | closeLink | takeInjected | closeInjected => exact .inl rfl

/-- A note that is reached behind a journal stands in it or in what follows. -/
theorem prefix_append_cases {p J : List Note} {n : Note} (h : p ++ [n] <+: J ++ N) :
    p ++ [n] <+: J ∨ ∃ q, p = J ++ q ∧ q ++ [n] <+: N := by
  cases List.prefix_or_prefix_of_prefix h (List.prefix_append J N) with
  | inl hold => exact .inl hold
  | inr hlong =>
      cases List.prefix_concat_iff.mp hlong with
      | inl heq => exact .inl (heq ▸ List.prefix_refl _)
      | inr hlonger =>
          obtain ⟨q, rfl⟩ := hlonger
          rw [List.append_assoc, List.prefix_append_right_inj] at h
          exact .inr ⟨q, rfl, h⟩

/-- A chain starts in the event in which its packet is submitted, as it was submitted. -/
theorem Run.starts {settings : BrokerSettings} {J : List Note} {b : Broker}
    (h : Run settings J b) {p : List Note} {c : Chain} (hp : p ++ [.started c] <+: J) :
    ∃ J₀ b₀, Run settings J₀ b₀ ∧
      J₀ ++ [.happened (.submit c.bytes c.direction c.flags)] <+: p ∧
      p ++ [.started c] <+: J₀ ++ .happened (.submit c.bytes c.direction c.flags) ::
        b₀.notes (.submit c.bytes c.direction c.flags) := by
  induction h with
  | new => simp at hp
  | @step J b e hrun ih =>
      obtain hold | ⟨q, rfl, hq⟩ := prefix_append_cases hp
      · exact ih hold
      · cases q with
        | nil =>
            have he := (List.cons_prefix_cons.mp hq).1
            cases he
        | cons n q =>
            obtain ⟨rfl, hrest⟩ := List.cons_prefix_cons.mp hq
            have hmem : Note.started c ∈ b.notes e :=
              hrest.subset (List.mem_append_right q List.mem_cons_self)
            obtain rfl := (orderly_notes b e).starts c hmem
            refine ⟨J, b, hrun, ?_, hp⟩
            exact (List.prefix_append_right_inj J).mpr
              (List.cons_prefix_cons.mpr ⟨rfl, q.nil_prefix⟩)
  | reordered _ _ ih => exact ih hp

end Broker

end Intercept
