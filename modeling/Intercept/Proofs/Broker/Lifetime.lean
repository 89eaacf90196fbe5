import Intercept.Proofs.Broker.Feed
import Intercept.Proofs.Broker.Identity
import Intercept.Proofs.Broker.Sequel
import Intercept.Proofs.Broker.Standing
import Intercept.Proofs.Registry.Audience

/-!
# Intercept.Proofs.Broker.Lifetime

The life of a session: it begins once, ends once, and is mute from then on.

```
registrations J     how many registrations there have been
r.Owned ext n       the session n has begun, and is nobody's but this extension's
r.Gone n            the session n has begun, and is nobody's any more
Mute n m            the session n is gone, and no note puts a frame in its queue
```

A number names one session for ever, so what is gone is gone for good
(`Gone.register`, `Gone.remove`).  A frame is addressed by the name of the
extension.  It gets to a session that is gone only if a client of that session
is still asked, and every client that is asked is one of a current session
(`Mute.move`).
-/

namespace Intercept

/-! ## whose a session is -/

namespace Registry

variable {r : Registry} {ext name : String} {n n' : Nat}

/-- A registration makes the next number the current session of its name, and of no other. -/
theorem isCurrent_register (r : Registry) (ext : String) (is : List Interest) (name : String)
    (n : Nat) : (r.register ext is).isCurrent name n = true ↔
      (name = ext ∧ n = r.lastSession + 1) ∨ (name ≠ ext ∧ r.isCurrent name n = true) := by
  by_cases hname : name = ext
  · subst hname
    simp [isCurrent, get?_register_self, eq_comm (a := n)]
  · simp [isCurrent, get?_register_of_ne r is hname, hname]

/-- A name that is removed has no current session; the others keep theirs. -/
theorem isCurrent_remove (r : Registry) (ext name : String) (n : Nat) :
    (r.remove ext).isCurrent name n = true ↔ name ≠ ext ∧ r.isCurrent name n = true := by
  by_cases hname : name = ext
  · subst hname
    simp [isCurrent, get?_remove_self]
  · simp [isCurrent, get?_remove_of_ne r hname, hname]

/-- An extension has one session. -/
theorem eq_of_isCurrent (h : r.isCurrent ext n = true) (h' : r.isCurrent ext n' = true) :
    n = n' := by
  obtain ⟨g, hg, rfl⟩ := (isCurrent_iff _ _ _).mp h
  obtain ⟨g', hg', rfl⟩ := (isCurrent_iff _ _ _).mp h'
  rw [hg] at hg'
  cases hg'
  rfl

/-- The session has begun, and is nobody's but this extension's. -/
def Owned (r : Registry) (ext : String) (n : Nat) : Prop :=
  n ≤ r.lastSession ∧ ∀ name, r.isCurrent name n = true → name = ext

/-- The session has begun, and is nobody's any more. -/
def Gone (r : Registry) (n : Nat) : Prop :=
  n ≤ r.lastSession ∧ ∀ ext, r.isCurrent ext n = false

/-- A session that has begun stays its extension's, whoever registers. -/
theorem Owned.register (h : r.Owned ext n) (other : String) (is : List Interest) :
    (r.register other is).Owned ext n := by
  refine ⟨?_, fun name hname => ?_⟩
  · rw [lastSession_register]
    exact Nat.le_succ_of_le h.1
  · obtain ⟨_, hnew⟩ | ⟨_, hold⟩ := (isCurrent_register r other is name n).mp hname
    · exact absurd h.1 (by omega)
    · exact h.2 name hold

/-- It stays so whoever leaves. -/
theorem Owned.remove (h : r.Owned ext n) (other : String) : (r.remove other).Owned ext n :=
  ⟨h.1, fun name hname => h.2 name ((isCurrent_remove r other name n).mp hname).2⟩

/-- Whoever loses its session, nobody else has it. -/
theorem Owned.gone (h : r.Owned ext n) (hlost : r.isCurrent ext n = false) : r.Gone n := by
  refine ⟨h.1, fun name => Bool.eq_false_iff.mpr fun hname => ?_⟩
  rw [h.2 name hname, hlost] at hname
  cases hname

/-- A session that is gone does not come back by a registration. -/
theorem Gone.register (h : r.Gone n) (ext : String) (is : List Interest) :
    (r.register ext is).Gone n := by
  refine ⟨?_, fun name => Bool.eq_false_iff.mpr fun hname => ?_⟩
  · rw [lastSession_register]
    exact Nat.le_succ_of_le h.1
  · obtain ⟨_, hnew⟩ | ⟨_, hold⟩ := (isCurrent_register r ext is name n).mp hname
    · exact absurd h.1 (by omega)
    · rw [h.2 name] at hold
      cases hold

theorem Gone.remove (h : r.Gone n) (ext : String) : (r.remove ext).Gone n := by
  refine ⟨h.1, fun name => Bool.eq_false_iff.mpr fun hname => ?_⟩
  have hold := ((isCurrent_remove r ext name n).mp hname).2
  rw [h.2 name] at hold
  cases hold

/-- No client of a session that is gone is served. -/
theorem Gone.ne_of_serves (h : r.Gone n) {client : Client} (hserves : r.Serves client) :
    client.session ≠ n := by
  rintro rfl
  have hcurrent := hserves.isCurrent
  rw [h.2 client.ext] at hcurrent
  cases hcurrent

/-- A current session is its extension's. -/
theorem InTurn.owned (h : r.InTurn) (hcurrent : r.isCurrent ext n = true) : r.Owned ext n := by
  obtain ⟨g, hg, rfl⟩ := (isCurrent_iff _ _ _).mp hcurrent
  refine ⟨h.bounded g (List.mem_of_find?_eq_some hg), fun name hname => ?_⟩
  obtain ⟨g', hg', hsame⟩ := (isCurrent_iff _ _ _).mp hname
  have hnodup : (r.registrations.map (·.session)).Nodup :=
    List.pairwise_map.mpr (h.sorted.imp fun hlt => Nat.ne_of_lt hlt)
  obtain rfl : g' = g := List.inj_on_of_nodup_map hnodup (List.mem_of_find?_eq_some hg')
    (List.mem_of_find?_eq_some hg) hsame
  rw [← ext_of_get? hg, ext_of_get? hg']

end Registry

namespace Broker

variable {settings : BrokerSettings} {J : List Note} {b b' : Broker} {ext : String} {n : Nat}

/-! ## what begins -/

/-- How many registrations there have been. -/
def registrations (J : List Note) : Nat :=
  J.countP fun
    | .happened (.register ..) => true
    | _ => false

theorem registrations_append (J N : List Note) :
    registrations (J ++ N) = registrations J + registrations N := List.countP_append

/-- Notes without events tell of no registration. -/
theorem registrations_of_alone {N : List Note} (h : ∀ e, .happened e ∉ N) :
    registrations N = 0 := by
  refine List.countP_eq_zero.mpr fun note hnote => ?_
  cases note with
  | happened e => exact absurd hnote (h e)
  | _ => simp

/-- No other event happens within an event. -/
theorem alone_notes (hb : b.Distinct) (e e' : Event) : .happened e' ∉ b.notes e := by
  have hturn : e.IsTurn → .happened e' ∉ b.notes e := fun he => (turn_step hb he).alone e'
  cases e with
  | poll id => exact (turn_expire b id).alone e'
  | abandon | later => exact List.not_mem_nil
  | _ => exact hturn trivial

/-- An event adds itself to the registrations, and nothing that it brings about does. -/
theorem registrations_step (hb : b.Distinct) (J : List Note) (e : Event) :
    registrations (J ++ .happened e :: b.notes e) =
      registrations J + registrations [.happened e] := by
  rw [← List.singleton_append, registrations_append, registrations_append,
    registrations_of_alone (alone_notes hb e), Nat.add_zero]

/-- The last number goes up by one with each registration. -/
theorem lastSession_step (b : Broker) (e : Event) : (b.step e).registry.lastSession =
    b.registry.lastSession + registrations [.happened e] := by
  have hkept : (∀ ext is capacity, e ≠ .register ext is capacity) →
      (b.step e).registry.lastSession = b.registry.lastSession := by
    intro hne
    obtain hsame | ⟨ext, is, capacity, he, _⟩ | ⟨ext, hremoved⟩ := registry_step b e
    · rw [hsame]
    · exact absurd he (hne ext is capacity)
    · rw [hremoved]
      rfl
  cases e with
  | register ext is capacity =>
      rw [Broker.step, registry_register]
      exact Registry.lastSession_register _ _ _
  | _ => exact hkept fun _ _ _ he => by cases he

/-- Sessions are numbered by the registrations. -/
theorem Run.lastSession_eq (h : Run settings J b) : b.registry.lastSession = registrations J := by
  induction h with
  | new => rfl
  | @step J b e hrun ih => rw [lastSession_step, ih, registrations_step hrun.distinct]
  | reordered _ _ ih => exact ih

/-- Numbers have been given in turn. -/
theorem Run.inTurn (h : Run settings J b) : b.registry.InTurn :=
  h.registry_induct Registry.inTurn_empty (fun _ ext is hr => hr.register ext is)
    fun _ ext hr => hr.remove ext

/-! ## what comes later -/

/-- What registering and removing keep of a registry, it has ever after. -/
theorem LeadsTo.registry_induct (h : b.LeadsTo b') {P : Registry → Prop} (hnow : P b.registry)
    (hregister : ∀ r ext is, P r → P (r.register ext is))
    (hremove : ∀ r ext, P r → P (r.remove ext)) : P b'.registry := by
  induction h with
  | refl => exact hnow
  | @step b' e _ ih =>
      obtain hsame | ⟨ext, is, _, _, hreg⟩ | ⟨ext, hreg⟩ := registry_step b' e
      · rw [hsame]; exact ih
      · rw [hreg]; exact hregister _ ext is ih
      · rw [hreg]; exact hremove _ ext ih
  | reordered _ _ ih => exact ih

/-- Numbers only go up. -/
theorem LeadsTo.lastSession_le (h : b.LeadsTo b') :
    b.registry.lastSession ≤ b'.registry.lastSession :=
  h.registry_induct (P := fun r => b.registry.lastSession ≤ r.lastSession) (Nat.le_refl _)
    (fun r ext is hr => by rw [Registry.lastSession_register]; exact Nat.le_succ_of_le hr)
    fun _ _ hr => hr

/-- A session is its extension's for ever. -/
theorem LeadsTo.owned (h : b.LeadsTo b') (howned : b.registry.Owned ext n) :
    b'.registry.Owned ext n :=
  h.registry_induct (P := fun r => r.Owned ext n) howned (fun _ other is hr => hr.register other is)
    fun _ other hr => hr.remove other

/-- A session that is gone is gone for ever. -/
theorem LeadsTo.gone (h : b.LeadsTo b') (hgone : b.registry.Gone n) : b'.registry.Gone n :=
  h.registry_induct (P := fun r => r.Gone n) hgone (fun _ ext is hr => hr.register ext is)
    fun _ ext hr => hr.remove ext

/-! ## what a session that is gone is sent -/

/-- The outbound path is the queue of no session. -/
theorem framesFor_enqueueNotes (b : Broker) (bytes : Bytes) (direction : Direction) (flags : UInt32)
    (source : String) (n : Nat) :
    framesFor n (b.enqueueNotes bytes direction flags source) = [] := by
  unfold enqueueNotes
  dsimp only
  split
  · rfl
  · rfl

/-- Nor is any session sent a frame for an answer of an observer. -/
theorem framesFor_redeemNotes (b : Broker) (c : Correlation) (d : Directive) (n : Nat) :
    framesFor n (b.redeemNotes c d) = [] := by
  unfold redeemNotes
  cases d with
  | forward packet direction => exact framesFor_enqueueNotes _ _ _ _ _ n
  | finish packet direction => exact framesFor_enqueueNotes _ _ _ _ _ n
  | pass => rfl
  | cancel => rfl

/-- A copy for one session is put in the queue of no other. -/
theorem framesFor_notifyNotes {client : Client} (h : client.session ≠ n) (b : Broker)
    (bytes : Bytes) (direction : Direction) (flags : UInt32) :
    framesFor n (b.notifyNotes bytes direction flags client) = [] := by
  unfold notifyNotes
  dsimp only
  cases (b.drawn.trySend client.ext (b.copyFrame bytes direction flags client)).isSome with
  | false => rfl
  | true => simp [framesFor, Note.frame?, h]

/-- Nothing is put in the queue of the session, which is gone. -/
structure Mute (n : Nat) (m : Moment) : Prop where
  asked : Asked m
  gone : m.broker.registry.Gone n
  silent : framesFor n m.journal = []

/-- No move puts anything in the queue of a session that is gone. -/
theorem Mute.move {m m' : Moment} (hmove : Move m m') (h : Mute n m) : Mute n m' := by
  have hgone : m'.broker.registry.Gone n := by
    obtain hsame | ⟨_, _, ⟨ext, is, hreg⟩ | ⟨ext, hreg⟩⟩ := registry_move hmove
    · rw [hsame]; exact h.gone
    · rw [hreg]; exact h.gone.register ext is
    · rw [hreg]; exact h.gone.remove ext
  refine ⟨h.asked.move hmove, hgone, ?_⟩
  have hadded : ∀ N : List Note, framesFor n N = [] → framesFor n (m.journal ++ N) = [] := by
    intro N hN
    rw [framesFor_append, h.silent, hN]
    rfl
  cases hmove with
  | handed hs =>
      have hne := h.gone.ne_of_serves (h.asked.goes _ rfl _ rfl).2.2.1
      exact hadded _ (by simp [framesFor, Note.frame?, hne])
  | copied flags _ hmatches _ =>
      have hne := h.gone.ne_of_serves (h.asked.sound.serves_of_mem_matching hmatches)
      exact hadded _ (framesFor_notifyNotes hne _ _ _ flags)
  | missed _ =>
      rw [List.append_assoc]
      exact hadded _ rfl
  | redeemed d _ _ => exact hadded _ (framesFor_redeemNotes _ _ d n)
  | pushed direction flags _ => exact hadded _ (framesFor_enqueueNotes _ _ direction flags _ n)
  | happened | directed | finished | cancelled | dropped | started => exact hadded _ rfl
  | joined | replaced | left | refused | taken | abandoned | forgot | outside | reordered =>
      exact h.silent

/-- A session that is gone is mute before anything has happened. -/
theorem mute_of_gone (hsound : b.registry.Sound) (hbounded : b.registry.Bounded)
    (hgone : b.registry.Gone n) : Mute n ⟨[], b, none⟩ := by
  refine ⟨⟨hsound, hbounded, ?_, ?_⟩, hgone, rfl⟩
  · intro c client sent hmem
    cases hmem
  · intro f hf
    cases hf

/-- What the notes of moves tell of, they do not put in the queue of a session that is gone. -/
theorem Moves.silent {N : List Note} (h : Moves ⟨[], b, none⟩ ⟨[] ++ N, b', none⟩)
    (hsound : b.registry.Sound) (hbounded : b.registry.Bounded) (hgone : b.registry.Gone n) :
    framesFor n N = [] :=
  (h.induct (P := Mute n) (fun _ _ hmove hm => hm.move hmove)
    (mute_of_gone hsound hbounded hgone)).silent

/-- The chains that a session held go to others. -/
theorem framesFor_releaseNotes (hb : b.Distinct) (hsound : b.registry.Sound)
    (hbounded : b.registry.Bounded) (hgone : b.registry.Gone n) (ext : String) (session : Nat) :
    framesFor n (b.releaseNotes ext session) = [] :=
  (moves_release [] hb ext session).silent hsound hbounded hgone

/-- A registration sends nothing to a session that is gone behind it. -/
theorem framesFor_registerNotes (hb : b.Distinct) (hsound : b.registry.Sound)
    (hbounded : b.registry.Bounded) {ext : String} {is : List Interest}
    (hgone : (b.registry.register ext is).Gone n) (capacity : Nat) :
    framesFor n (b.registerNotes ext is capacity) = [] := by
  unfold registerNotes
  cases b.registry.get? ext with
  | none => rfl
  | some old =>
      exact framesFor_releaseNotes (b := b.enrolled ext is capacity) hb (hsound.register ext is)
        (hbounded.register ext is) hgone ext old.session

/-- Nor does a removal, though it carries on the chains of the session that it takes away. -/
theorem framesFor_removedNotes (hb : b.Distinct) (hsound : b.registry.Sound)
    (hbounded : b.registry.Bounded) {found : Option (Registration × Registry)}
    (hfound : ∀ old r, found = some (old, r) → ∃ ext, r = b.registry.remove ext)
    (hgone : (b.removed found).registry.Gone n) : framesFor n (b.removedNotes found) = [] := by
  cases found with
  | none => rfl
  | some p =>
      obtain ⟨old, r⟩ := p
      obtain ⟨ext, rfl⟩ := hfound old r rfl
      let left : Broker :=
        ({ b with registry := b.registry.remove ext } : Broker).countConnected (-1)
      have hreg : (left.release old.ext old.session).registry = b.registry.remove ext :=
        (carried_release left old.ext old.session).registry
      unfold removed at hgone
      rw [hreg] at hgone
      exact framesFor_releaseNotes (b := left) hb (hsound.remove ext) (hbounded.remove ext) hgone
        _ _

/-- Unregistering an extension removes its name. -/
theorem eq_remove_of_unregister? {r r' : Registry} {old : Registration}
    (h : r.unregister? ext = some (old, r')) : r' = r.remove ext := by
  obtain ⟨_, _, hold⟩ := Option.map_eq_some_iff.mp h
  cases hold
  rfl

theorem eq_remove_of_unregisterSession? {r r' : Registry} {old : Registration} {session : Nat}
    (h : r.unregisterSession? ext session = some (old, r')) : r' = r.remove ext := by
  unfold Registry.unregisterSession? at h
  split at h
  · exact eq_remove_of_unregister? h
  · cases h

/-- **An event that a session does not outlive puts nothing in its queue.** -/
theorem framesFor_notes (hb : b.Distinct) (hsound : b.registry.Sound)
    (hbounded : b.registry.Bounded) (e : Event) (hgone : (b.step e).registry.Gone n) :
    framesFor n (b.notes e) = [] := by
  have hkept : (b.step e).registry = b.registry → framesFor n (b.notes e) = [] := by
    intro hsame
    rw [hsame] at hgone
    exact (moves_step [] hb e).silent hsound hbounded hgone
  cases e with
  | register ext is capacity =>
      rw [Broker.step, registry_register] at hgone
      exact framesFor_registerNotes hb hsound hbounded hgone capacity
  | unregister ext =>
      exact framesFor_removedNotes hb hsound hbounded
        (fun _ _ hold => ⟨ext, eq_remove_of_unregister? hold⟩) hgone
  | unregisterSession ext session =>
      exact framesFor_removedNotes hb hsound hbounded
        (fun _ _ hold => ⟨ext, eq_remove_of_unregisterSession? hold⟩) hgone
  | submit bytes direction flags => exact hkept (registry_submit b bytes direction flags)
  | poll id => exact hkept (registry_poll b id)
  | expire id => exact hkept (carried_expire b id).registry
  | abandon id => exact hkept (carried_abandon b id).registry
  | respond ext response => exact hkept (registry_respond b ext response)
  | inject bytes direction flags => exact hkept (registry_inject b bytes direction flags)
  | prune => exact hkept (carried_prune b).registry
  | sweep => exact hkept (registry_sweep b)
  | later | takeFrames | closeLink | takeInjected | closeInjected => rfl

/-! ## its queue -/

theorem queued_eq (b : Broker) (n : Nat) : b.queued n = ((b.queue? n).map (·.items)).getD [] := by
  unfold queued queue?
  rw [Option.map_map]
  rfl

/-- A new session has a queue of its own. -/
theorem queue?_readied (hle : n ≤ b.registry.lastSession) (e : Event) :
    (b.readied e).queue? n = b.queue? n := by
  cases e with
  | register ext is capacity =>
      have hne : b.registry.lastSession + 1 ≠ n := by omega
      simp [readied, enrolled, queue?, List.find?_append, Registry.lastSession_register, hne]
  | _ => rfl

/-- Taking from one queue leaves every queue with the rest of what it had. -/
theorem queued_mapQueue (b : Broker) (session : Nat)
    {f : BoundedQueue Frame → BoundedQueue Frame} (hf : ∀ q, (f q).items <:+ q.items) (n : Nat) :
    (b.mapQueue session f).queued n <:+ b.queued n := by
  rw [queued_eq, queued_eq, queue?_mapQueue]
  cases b.queue? n with
  | none => simp
  | some q =>
      split
      · exact hf q
      · exact List.suffix_refl _

/-- What is not fed only loses from the front. -/
theorem queued_step (hsound : b.registry.Sound) (hle : n ≤ b.registry.lastSession) (e : Event)
    (hsilent : framesFor n (b.notes e) = []) : (b.step e).queued n <:+ b.queued n := by
  by_cases he : e.IsOutside
  · cases e with
    | takeFrames session k =>
        exact queued_mapQueue b session (fun q => List.drop_suffix k q.items) n
    | closeLink session => exact queued_mapQueue b session (fun q => List.nil_suffix) n
    | later | takeInjected | closeInjected => exact List.suffix_refl _
    | _ => cases he
  · have hfed := (fed_step hsound e he).queue n
    rw [hsilent, queue?_readied hle] at hfed
    rw [queued_eq, queued_eq, hfed]
    simp

/-! ## one life -/

/-- Whoever is not of the current session takes nobody out. -/
theorem unregisterSession_of_not_current (h : b.registry.isCurrent ext n = false) :
    b.unregisterSession ext n = b := by
  unfold unregisterSession Registry.unregisterSession?
  rw [h]
  rfl

/-- **A session begins once and ends once.**  Each registration begins the session that is numbered
by how many there have been, so its number is above those of all before and below those of all to
come.  An extension is of one session, and a session is one extension's.  Whoever asks for the
removal of a session that is not current changes nothing at all.  And once the current session has
been replaced or removed it is never current again, and neither the event that ended it nor any
event from then on puts a frame in its queue. -/
theorem Run.session_lifetime (h : Run settings J b) :
    (∀ ext is capacity, let begun := b.step (.register ext is capacity)
      begun.registry.lastSession = registrations J + 1 ∧
      begun.registry.isCurrent ext (registrations J + 1) = true ∧
      ∀ b', begun.LeadsTo b' → ∀ ext' is' capacity',
        begun.registry.lastSession <
          (b'.step (.register ext' is' capacity')).registry.lastSession) ∧
    (∀ ext n ext' n', b.registry.isCurrent ext n = true → b.registry.isCurrent ext' n' = true →
      (ext = ext' ↔ n = n')) ∧
    (∀ ext n, b.registry.isCurrent ext n = false → b.unregisterSession ext n = b) ∧
    ∀ ext n, b.registry.isCurrent ext n = true → ∀ b' e, b.LeadsTo b' →
      (b'.step e).registry.isCurrent ext n = false →
      framesFor n (b'.notes e) = [] ∧ (b'.step e).queued n <:+ b'.queued n ∧
      ∀ b'', (b'.step e).LeadsTo b'' → b''.registry.isCurrent ext n = false := by
  refine ⟨fun ext is capacity => ?_, fun ext n ext' n' hn hn' => ⟨?_, ?_⟩,
    fun ext n => unregisterSession_of_not_current, ?_⟩
  · have hnumber := (h.step (.register ext is capacity)).lastSession_eq
    rw [registrations_step h.distinct] at hnumber
    refine ⟨hnumber, ?_, fun b' hlater ext' is' capacity' => ?_⟩
    · rw [Broker.step, registry_register, Registry.isCurrent_register, ← h.lastSession_eq]
      exact .inl ⟨rfl, rfl⟩
    · rw [lastSession_step b']
      exact Nat.lt_succ_of_le hlater.lastSession_le
  · rintro rfl
    exact Registry.eq_of_isCurrent hn hn'
  · rintro rfl
    exact (h.inTurn.owned hn').2 ext hn
  · intro ext n hcurrent b' e hlater hlost
    obtain ⟨N, hrun, _⟩ := h.leadsTo hlater
    have howned : b'.registry.Owned ext n := hlater.owned (h.inTurn.owned hcurrent)
    have hgone : (b'.step e).registry.Gone n := ((LeadsTo.refl.step e).owned howned).gone hlost
    have hsilent :=
      framesFor_notes hrun.distinct hrun.reachable.tended.sound hrun.inTurn.bounded e hgone
    exact ⟨hsilent, queued_step hrun.reachable.tended.sound howned.1 e hsilent,
      fun b'' hthen => (hthen.gone hgone).2 ext⟩

/-- Two extensions are asked for one packet.  The first one registers anew while it holds the
chain: the other one gets the packet, the old session does not, and to remove the old session then
changes nothing. -/
theorem session_lifetime_by_replacement :
    ∃ J b, Run {} J b ∧ b.registry.isCurrent "x" 1 = true ∧
      (b.queued 1).map (·.packetId) = [1] ∧ b.queued 2 = [] ∧
    ∃ anew, b.LeadsTo anew ∧ anew.registry.isCurrent "x" 1 = false ∧
      anew.registry.isCurrent "x" 3 = true ∧ anew.queued 1 <:+ b.queued 1 ∧
      (anew.queued 2).map (·.packetId) = [1] ∧ anew.unregisterSession "x" 1 = anew ∧
      ∀ b'', anew.LeadsTo b'' → b''.registry.isCurrent "x" 1 = false := by
  let text : Interest := { id := 1, kind := .net .genericText }
  let run : List Event := [.register "x" [text] 4, .register "y" [text] 4,
    .submit [2, 0, 0, 0, 0] .clientToServer 0]
  let again : Event := .register "x" [text] 4
  have h : Run {} _ (run.foldl Broker.step (.new {})) := Run.new.foldl run
  have hcurrent : (run.foldl Broker.step (.new {})).registry.isCurrent "x" 1 = true := by cbv
  have hlost : ((run.foldl Broker.step (.new {})).step again).registry.isCurrent "x" 1 = false := by
    cbv
  obtain ⟨_, _, _, hends⟩ := h.session_lifetime
  obtain ⟨_, hqueue, hever⟩ := hends "x" 1 hcurrent _ again .refl hlost
  obtain ⟨_, _, hnothing, _⟩ := (h.step again).session_lifetime
  exact ⟨_, _, h, hcurrent, by cbv, by cbv, _, .step again .refl, hlost, by cbv, hqueue, by cbv,
    hnothing "x" 1 hlost, hever⟩

end Broker

end Intercept
