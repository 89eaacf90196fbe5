import Intercept.Proofs.Broker.Standing
import Intercept.Proofs.Endpoint.Negotiation

/-!
# Intercept.Proofs.Endpoint.Watch

The turns of a session from its registration on, and the times that it looks at.

```
x.Hears                          the turn is about a message of the extension
x.Delivers                       frames are handed out in the turn
x.watchAfter settings number w   the times behind the turn, if the session goes on
```

A session gets its times when a message registers it (`enrolled_of_serving`);
from then on a turn ends it or sets the times (`phase_turn`), so these have no
other source (`serving_before`).  Its timers end it only if it looks and its
extension has been silent for too long (`over_of_silent`, `serving_of_tick`).
-/

namespace Intercept

namespace Encounter

/-- The turn is about a message of the extension. -/
def Hears (x : Encounter) : Prop := ∃ m, x.stimulus = .hears (some m)

/-- Frames are handed out in the turn. -/
def Delivers (x : Encounter) : Prop :=
  x.stimulus = .hands ∧
    ∃ number watch, x.session.phase = .serving number watch ∧ x.broker.queued number ≠ []

/-- The times that a registered session looks at behind the turn, if it goes on. -/
def watchAfter (settings : SessionSettings) (x : Encounter) (number : Nat) (w : Watch) : Watch :=
  match x.stimulus with
  | .hears _ => w.heard x.broker.now
  | .ticks =>
    if w.pingDue ≤ x.broker.now then w.pinged x.broker.now settings.pingInterval
    else if w.checkDue ≤ x.broker.now then w.stirred x.broker.now
    else w
  | .hands => if x.broker.queued number = [] then w else w.stirred x.broker.now

end Encounter

variable {settings : SessionSettings} {x : Encounter} {number : Nat} {w : Watch}

/-! ## registration -/

/-- A session gets registered by a message, and its times start then. -/
theorem enrolled_of_serving (hbefore : ∀ number w, x.session.phase ≠ .serving number w)
    (hs : (x.turn settings).session.phase = .serving number w) :
    x.Hears ∧ w = .start x.now := by
  have hskipped : (x.turn settings).session ≠ x.session := fun hsame =>
    hbefore number w (by rw [← hsame]; exact hs)
  have hrefused : ∀ fault, x.turn settings ≠ x.session.reject x.broker fault := by
    intro fault hturn
    rw [hturn] at hs
    cases hs
  obtain ⟨⟨name, phase⟩, b, stimulus⟩ := x
  cases phase with
  | greeting deadline =>
      cases (waits_greeting settings name deadline).waited
          (x := ⟨⟨name, .greeting deadline⟩, b, stimulus⟩) with
      | skipped _ _ hsame => exact absurd hsame hskipped
      | taken m c hstimulus _ hgood hm hturn =>
          rw [greet_of_greets _ b deadline hm hgood] at hturn
          rw [hturn] at hs
          cases hs
      | refused _ fault _ _ _ hturn => exact absurd hturn (hrefused fault)
  | declaring deadline =>
      cases (waits_declaring settings name deadline).waited
          (x := ⟨⟨name, .declaring deadline⟩, b, stimulus⟩) with
      | skipped _ _ hsame => exact absurd hsame hskipped
      | taken m c hstimulus _ hgood hm hturn =>
          obtain ⟨is, hdeclared⟩ := Option.isSome_iff_exists.mp hgood
          rw [declare_of_declared _ b hm hdeclared] at hturn
          rw [hturn] at hs
          cases hs
          exact ⟨⟨m, hstimulus⟩, by rw [Broker.now_register]⟩
      | refused _ fault _ _ _ hturn => exact absurd hturn (hrefused fault)
  | serving number' w' => exact absurd rfl (hbefore number' w')
  | _ => exact absurd (congrArg (·.session) (turn_of_over rfl)) hskipped

/-! ## turns of a registered session -/

theorem phase_reply (s : Session) (r : Except Fault Unit × Broker) :
    (s.reply r).session.phase = s.phase := by
  unfold Session.reply
  split
  · rfl
  · rfl

theorem phase_hear (s : Session) (b : Broker) (number : Nat) (w : Watch) (m : Message) :
    (s.hear b number w m).session.phase = .over ∨
      (s.hear b number w m).session.phase = .serving number (w.heard b.now) := by
  unfold Session.hear
  dsimp only
  split
  · exact .inr (phase_reply _ _)
  · exact .inl rfl
  · exact .inl rfl
  · exact .inr (phase_reply _ _)
  · exact .inr rfl
  · exact .inr rfl
  · exact .inr (phase_reply _ _)

/-- **What a turn does to a registered session**: it ends it, or it sets the times. -/
theorem phase_turn (settings : SessionSettings) (hs : x.session.phase = .serving number w) :
    (x.turn settings).session.phase = .over ∨
      (x.turn settings).session.phase = .serving number (x.watchAfter settings number w) := by
  unfold Encounter.turn Encounter.watchAfter
  cases x.stimulus with
  | hears m =>
      unfold Session.receive
      rw [hs]
      cases m with
      | some m => exact phase_hear x.session x.broker number w m
      | none => exact .inl rfl
  | ticks =>
      unfold Session.tick
      rw [hs]
      dsimp only
      by_cases hping : w.pingDue ≤ x.broker.now
      · rw [if_pos hping, if_pos hping]
        exact .inr rfl
      · rw [if_neg hping, if_neg hping]
        by_cases hcheck : w.checkDue ≤ x.broker.now
        · rw [if_pos hcheck, if_pos hcheck]
          split
          · exact .inl rfl
          · exact .inr rfl
        · rw [if_neg hcheck, if_neg hcheck]
          exact .inr hs
  | hands =>
      unfold Session.deliver
      rw [hs]
      dsimp only
      split
      · exact .inr rfl
      · exact .inl rfl

/-- What a session that is registered behind a turn was before, and where its times are from. -/
theorem serving_before (hs : (x.turn settings).session.phase = .serving number w) :
    (∃ v, x.session.phase = .serving number v ∧ w = x.watchAfter settings number v) ∨
      x.Hears ∧ w = .start x.now := by
  by_cases hserving : ∃ n v, x.session.phase = .serving n v
  · obtain ⟨n, v, hv⟩ := hserving
    obtain hover | hsame := phase_turn settings hv
    · rw [hs] at hover
      cases hover
    · rw [hs] at hsame
      cases hsame
      exact .inl ⟨v, hv, rfl⟩
  · exact .inr (enrolled_of_serving (fun n v hv => hserving ⟨n, v, hv⟩) hs)

/-- A session that looks and finds its extension silent for too long, ends. -/
theorem over_of_silent (hs : x.session.phase = .serving number w) (hticks : x.stimulus = .ticks)
    (hping : x.now < w.pingDue) (hcheck : w.checkDue ≤ x.now)
    (hidle : w.lastActivity + settings.idleTimeout ≤ x.now) :
    (x.turn settings).session.phase = .over := by
  have hnoping : ¬w.pingDue ≤ x.broker.now := Nat.not_le_of_lt hping
  have hsilent : settings.idleTimeout ≤ x.broker.now - w.lastActivity :=
    Nat.le_sub_of_add_le (by rwa [Nat.add_comm])
  unfold Encounter.turn Session.tick
  rw [hticks, hs]
  dsimp only
  rw [if_neg hnoping, if_pos hcheck, if_pos hsilent]
  rfl

/-- A session that does not look, goes on. -/
theorem serving_of_tick (settings : SessionSettings) (hs : x.session.phase = .serving number w)
    (hticks : x.stimulus = .ticks) (hcheck : x.now < w.checkDue) :
    (x.turn settings).session = ⟨x.session.name, .serving number (x.watchAfter settings number w)⟩ ∧
      (x.turn settings).broker = x.broker := by
  have hnocheck : ¬w.checkDue ≤ x.broker.now := Nat.not_le_of_lt hcheck
  unfold Encounter.turn Encounter.watchAfter Session.tick
  rw [hticks, hs]
  dsimp only
  rw [if_neg hnocheck, if_neg hnocheck]
  split
  · exact ⟨rfl, rfl⟩
  · exact ⟨by rw [← hs]; rfl, rfl⟩

/-- A session that is current and hands out frames, goes on. -/
theorem serving_of_hands (settings : SessionSettings) (hs : x.session.phase = .serving number w)
    (hhands : x.stimulus = .hands)
    (hcurrent : x.broker.registry.isCurrent x.session.name number = true) :
    (x.turn settings).session = ⟨x.session.name, .serving number (x.watchAfter settings number w)⟩ ∧
      (x.turn settings).broker = x.broker.drainLink number := by
  unfold Encounter.turn Encounter.watchAfter Session.deliver
  rw [hhands, hs]
  dsimp only
  rw [if_pos hcurrent]
  exact ⟨rfl, rfl⟩

/-! ## when the session looks next -/

theorem checkDue_watchAfter (settings : SessionSettings) (x : Encounter) (number : Nat)
    (w : Watch) :
    (x.watchAfter settings number w).checkDue = w.checkDue ∨
      (x.watchAfter settings number w).checkDue = x.now + Watch.checkDelay := by
  unfold Encounter.watchAfter
  cases x.stimulus with
  | hears m => exact .inr rfl
  | ticks =>
      dsimp only
      split
      · exact .inr rfl
      · split
        · exact .inr rfl
        · exact .inl rfl
  | hands =>
      dsimp only
      split
      · exact .inl rfl
      · exact .inr rfl

theorem Watch.le_pingDue_pinged (w : Watch) (now interval : Nat) :
    now + interval ≤ (w.pinged now interval).pingDue + Watch.pingSlack := by
  unfold Watch.pinged
  dsimp only
  split
  · omega
  · omega

theorem watchAfter_of_delivers (h : x.Delivers) (hs : x.session.phase = .serving number w) :
    x.watchAfter settings number w = w.stirred x.now := by
  obtain ⟨hhands, n, v, hv, hframes⟩ := h
  rw [hs] at hv
  cases hv
  unfold Encounter.watchAfter
  rw [hhands]
  exact if_neg hframes

end Intercept
