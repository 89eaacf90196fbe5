import Intercept.Proofs.Broker.Move
import Intercept.Proofs.Broker.Tenure
import Intercept.Proofs.Registry.Order

/-!
# Intercept.Proofs.Broker.Roster

Who is registered over a run, and who has been asked.

```
Run.registry_induct   what registering and removing keep, the registry of every run has
r.Recalls c           c is of no session to come, and served as long as its session is current
Run.recalls           every client that a chain was handed to is recalled
```

A client that a chain was handed to may be long gone.  As no session number is
used twice, it is served as long as the number in it is that of the current
registration.
-/

namespace Intercept

/-! ## the registry of a run -/

namespace Broker

variable {settings : BrokerSettings} {J : List Note} {b : Broker}

/-- The registry changes only between chains, by a registration or a removal. -/
theorem registry_move {m m' : Moment} (h : Move m m') :
    m'.broker.registry = m.broker.registry ∨
      (m'.journal = m.journal ∧ m'.flight = none ∧
        ((∃ ext is, m'.broker.registry = m.broker.registry.register ext is) ∨
          ∃ ext, m'.broker.registry = m.broker.registry.remove ext)) := by
  cases h with
  | handed hs => exact .inl (carried_of_trySend hs).registry
  | finished => exact .inl (carried_conclude _ _ _).registry
  | cancelled => exact .inl (carried_conclude _ _ _).registry
  | joined interests capacity _ => exact .inr ⟨rfl, rfl, .inl ⟨_, interests, rfl⟩⟩
  | replaced interests capacity _ => exact .inr ⟨rfl, rfl, .inl ⟨_, interests, rfl⟩⟩
  | left _ => exact .inr ⟨rfl, rfl, .inr ⟨_, rfl⟩⟩
  | copied flags _ _ _ => exact .inl (told_notify _ _ _ _ _).registry
  | redeemed d _ _ => exact .inl (posted_redeem _ _ _).registry
  | pushed direction flags _ => exact .inl (posted_enqueue _ _ _ _ _).registry
  | @outside J b e he =>
      cases e with
      | later | takeFrames | closeLink | takeInjected | closeInjected => exact .inl rfl
      | _ => cases he
  | happened | directed | missed | refused | started | taken | abandoned | forgot | dropped
  | reordered => exact .inl rfl

/-- **What registering and removing keep, the registry of every run has.** -/
theorem Run.registry_induct (h : Run settings J b) {P : Registry → Prop} (hnew : P {})
    (hregister : ∀ r ext is, P r → P (r.register ext is))
    (hremove : ∀ r ext, P r → P (r.remove ext)) : P b.registry := by
  refine h.induct (P := fun m => P m.broker.registry) hnew fun m m' hmove hm => ?_
  obtain hsame | ⟨_, _, ⟨ext, is, hreg⟩ | ⟨ext, hreg⟩⟩ := registry_move hmove
  · rw [hsame]; exact hm
  · rw [hreg]; exact hregister _ ext is hm
  · rw [hreg]; exact hremove _ ext hm

theorem Run.filed (h : Run settings J b) : b.registry.Filed :=
  h.registry_induct Registry.filed_empty (fun _ ext is hr => hr.register ext is)
    fun _ ext hr => hr.remove ext

end Broker

/-! ## clients that have been asked -/

namespace Registry

/-- No session to come is in the registry. -/
def Bounded (r : Registry) : Prop := ∀ g ∈ r.registrations, g.session ≤ r.lastSession

/-- The client is of no session to come, and it is served as long as its session is current. -/
def Recalls (r : Registry) (c : Client) : Prop :=
  c.session ≤ r.lastSession ∧ (r.isCurrent c.ext c.session = true → r.Serves c)

theorem bounded_empty : Bounded {} := fun g hg => by cases hg

theorem Bounded.remove {r : Registry} (hr : r.Bounded) (ext : String) : (r.remove ext).Bounded :=
  fun g hg => hr g (List.mem_filter.mp hg).1

theorem Bounded.register {r : Registry} (hr : r.Bounded) (ext : String) (is : List Interest) :
    (r.register ext is).Bounded := by
  intro g hg
  rw [lastSession_register]
  rw [registrations_register, List.mem_append, List.mem_singleton] at hg
  obtain hold | rfl := hg
  · exact Nat.le_succ_of_le (hr.remove ext g hold)
  · exact Nat.le_refl _

/-- A client that is served is recalled. -/
theorem Serves.recalls {r : Registry} (hr : r.Bounded) {c : Client} (h : r.Serves c) :
    r.Recalls c := by
  refine ⟨?_, fun _ => h⟩
  obtain ⟨g, hg, hs, _⟩ := h
  rw [← hs]
  exact hr g (List.mem_of_find?_eq_some hg)

/-- Whoever registers anew has another session. -/
theorem Recalls.register {r : Registry} {c : Client} (h : r.Recalls c) (ext : String)
    (is : List Interest) : (r.register ext is).Recalls c := by
  refine ⟨?_, fun hcurrent => ?_⟩
  · rw [lastSession_register]
    exact Nat.le_succ_of_le h.1
  · by_cases hext : c.ext = ext
    · obtain ⟨g, hg, hs⟩ := (isCurrent_iff _ _ _).mp hcurrent
      rw [hext, get?_register_self] at hg
      cases hg
      have hle := h.1
      dsimp only at hs
      omega
    · have hget := get?_register_of_ne r is hext
      refine (h.2 ?_).of_get? hget
      rwa [isCurrent, ← hget]

theorem Recalls.remove {r : Registry} {c : Client} (h : r.Recalls c) (ext : String) :
    (r.remove ext).Recalls c := by
  refine ⟨h.1, fun hcurrent => ?_⟩
  by_cases hext : c.ext = ext
  · rw [isCurrent, hext, get?_remove_self] at hcurrent
    cases hcurrent
  · have hget := get?_remove_of_ne r hext
    refine (h.2 ?_).of_get? hget
    rwa [isCurrent, ← hget]

end Registry

namespace Broker

/-- Whoever is or was asked is recalled, and whoever is to be asked next is served. -/
structure Asked (m : Moment) : Prop where
  sound : m.broker.registry.Sound
  bounded : m.broker.registry.Bounded
  recalls : ∀ c client sent, .handed c client sent ∈ m.journal → m.broker.registry.Recalls client
  goes : ∀ f ∈ m.flight, f.1.chain.GoesTo m.broker.registry f.2

variable {settings : BrokerSettings} {J N : List Note} {b b' : Broker}

/-- As long as nobody is asked and the registry stays. -/
theorem Asked.quiet {m : Moment} (h : Asked m) {f' : Option (ActiveChain × Step)}
    (hreg : b'.registry = m.broker.registry)
    (hN : ∀ c client sent, .handed c client sent ∈ N → m.broker.registry.Recalls client)
    (hgoes : ∀ f ∈ f', f.1.chain.GoesTo m.broker.registry f.2) :
    Asked ⟨m.journal ++ N, b', f'⟩ := by
  constructor
  · rw [hreg]; exact h.sound
  · rw [hreg]; exact h.bounded
  · intro c client sent hmem
    rw [hreg]
    exact (List.mem_append.mp hmem).elim (h.recalls c client sent) (hN c client sent)
  · rw [hreg]; exact hgoes

theorem Asked.recalls_going {a : ActiveChain} {client : Client}
    (h : Asked ⟨J, b, some (a, .dispatch client)⟩) : b.registry.Recalls client :=
  (h.goes _ rfl client rfl).2.2.1.recalls h.bounded

/-- No move asks a client that is not recalled. -/
theorem Asked.move {m m' : Moment} (hmove : Move m m') (h : Asked m) : Asked m' := by
  have hlanded : ∀ (r : Registry), ∀ f ∈ (none : Option (ActiveChain × Step)),
      f.1.chain.GoesTo r f.2 := fun r f hf => by cases hf
  have hsilent : ∀ (b' : Broker) N, b'.registry = m.broker.registry →
      (∀ n ∈ N, n.chain? = none) → Asked ⟨m.journal ++ N, b', none⟩ := by
    intro b' N hreg hN
    refine h.quiet hreg (fun c client sent hmem => ?_) (hlanded _)
    cases hN _ hmem
  have hstill : ∀ b' : Broker, b'.registry = m.broker.registry → Asked ⟨m.journal, b', none⟩ := by
    intro b' hreg
    have hsame := hsilent b' [] hreg (by simp)
    rwa [List.append_nil] at hsame
  cases hmove with
  | happened e => exact hsilent _ _ rfl (by simp [Note.chain?])
  | directed _ _ =>
      refine h.quiet rfl (by simp) ?_
      rintro f ⟨rfl⟩
      exact Chain.goesTo_advance h.sound _ _ _
  | handed hs =>
      refine h.quiet (carried_of_trySend hs).registry (fun c client sent hmem => ?_) (hlanded _)
      cases List.mem_singleton.mp hmem
      exact h.recalls_going
  | missed _ =>
      rw [List.append_assoc]
      refine h.quiet rfl (fun c client sent hmem => ?_) ?_
      · cases List.mem_append.mp hmem with
        | inl hfirst =>
            cases List.mem_singleton.mp hfirst
            exact h.recalls_going
        | inr hrest => cases List.mem_singleton.mp hrest
      · rintro f ⟨rfl⟩
        exact Chain.goesTo_advance h.sound _ _ _
  | finished => exact h.quiet (carried_conclude _ _ _).registry (by simp) (hlanded _)
  | cancelled => exact h.quiet (carried_conclude _ _ _).registry (by simp) (hlanded _)
  | joined interests capacity _ | replaced interests capacity _ =>
      exact ⟨h.sound.register _ interests, h.bounded.register _ interests,
        fun c client sent hmem => (h.recalls c client sent hmem).register _ interests, hlanded _⟩
  | left _ =>
      exact ⟨h.sound.remove _, h.bounded.remove _,
        fun c client sent hmem => (h.recalls c client sent hmem).remove _, hlanded _⟩
  | refused | taken | abandoned | forgot | reordered => exact hstill _ rfl
  | copied flags _ _ _ =>
      exact hsilent _ _ (told_notify _ _ _ _ _).registry (chain?_notifyNotes _ _ _ _ _)
  | started direction flags _ hc hnext =>
      subst hc hnext
      refine h.quiet rfl (by simp) ?_
      rintro f ⟨rfl⟩
      exact Chain.goesTo_nextFrom _ fun client hclient =>
        h.sound.serves_of_mem_matching (List.mem_filter.mp hclient).1
  | redeemed d _ _ =>
      exact hsilent _ _ (posted_redeem _ _ _).registry (chain?_redeemNotes _ _ _)
  | pushed direction flags _ =>
      exact hsilent _ _ (posted_enqueue _ _ _ _ _).registry (chain?_enqueueNotes _ _ _ _ _)
  | dropped _ _ => exact h.quiet rfl (by simp) (hlanded _)
  | @outside J b e he =>
      refine hstill _ ?_
      cases e with
      | later | takeFrames | closeLink | takeInjected | closeInjected => rfl
      | _ => cases he

/-- **Whoever was asked is served as long as its session lasts.** -/
theorem Run.recalls (h : Run settings J b) {c : Chain} {client : Client} {sent : Bool}
    (hmem : .handed c client sent ∈ J) : b.registry.Recalls client := by
  have hasked : Asked ⟨J, b, none⟩ := by
    refine h.induct ⟨?_, Registry.bounded_empty, ?_, ?_⟩ fun _ _ hmove hm => Asked.move hmove hm
    · intro c hc
      cases hc
    · intro c client sent hmem
      cases hmem
    · intro f hf
      cases hf
  exact hasked.recalls c client sent hmem

end Broker

end Intercept
