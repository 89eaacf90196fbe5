import Intercept.Endpoint.Session
import Intercept.Proofs.Broker.Sequel

/-!
# Intercept.Proofs.Endpoint.Dialogue

What a session goes through, one turn after another.

```
x.turn settings                 what becomes of the encounter x
Dialogue settings name b R s    a connection is opened under this name at b and meets with R;
                                then its session is s
s.encounters settings script    what s meets with if these stimuli come, each with its broker
```

Between two turns of a session others have theirs, so each encounter brings
the broker that it finds.  A session that has been registered begins no
session and does not go back to the handshake (`past_turn`), and one that is
over does nothing (`turn_of_over`).
-/

namespace Intercept

/-- What a session can meet with. -/
inductive Stimulus where
  /-- A message, or the end of the connection. -/
  | hears (m : Option Message)
  /-- Its timers are looked at. -/
  | ticks
  /-- What is queued for it is handed out. -/
  | hands

/-- A session before a turn, the broker as it finds it, and what the turn is about. -/
structure Encounter where
  session : Session
  broker : Broker
  stimulus : Stimulus

namespace Encounter

/-- When the session has its turn. -/
abbrev now (x : Encounter) : Nat := x.broker.now

/-- What becomes of the session and the broker. -/
def turn (settings : SessionSettings) (x : Encounter) : Turn :=
  match x.stimulus with
  | .hears m => x.session.receive x.broker m
  | .ticks => x.session.tick settings x.broker
  | .hands => x.session.deliver x.broker

end Encounter

/-- What a connection that is opened under a name meets with, and its session then. -/
inductive Dialogue (settings : SessionSettings) (name : String) (b : Broker) :
    List Encounter → Session → Prop where
  | opened : Dialogue settings name b [] (Session.start name settings b).session
  | met {R : List Encounter} {s : Session} (b' : Broker) (stimulus : Stimulus) :
      Dialogue settings name b R s →
      Dialogue settings name b (R ++ [⟨s, b', stimulus⟩])
        (Encounter.turn settings ⟨s, b', stimulus⟩).session

/-- What came before an encounter had made the session what it was. -/
theorem Dialogue.before {settings : SessionSettings} {name : String} {b : Broker}
    {R pre post : List Encounter} {s : Session} {x : Encounter}
    (h : Dialogue settings name b R s) (hR : R = pre ++ x :: post) :
    Dialogue settings name b pre x.session := by
  induction h generalizing post with
  | opened => simp at hR
  | @met R s b' stimulus h ih =>
      cases post using List.reverseRecOn with
      | nil =>
          obtain ⟨rfl, hx⟩ := List.append_inj' hR rfl
          cases hx
          exact h
      | append_singleton post y =>
          rw [← List.cons_append, ← List.append_assoc] at hR
          exact ih (List.append_inj' hR rfl).1

namespace Session

/-- The session behind a turn. -/
def after (settings : SessionSettings) (s : Session) (p : Broker × Stimulus) : Session :=
  (Encounter.turn settings ⟨s, p.1, p.2⟩).session

/-- What a session meets with if these stimuli come one after another. -/
def encounters (settings : SessionSettings) (s : Session) :
    List (Broker × Stimulus) → List Encounter
  | [] => []
  | p :: script => ⟨s, p.1, p.2⟩ :: (s.after settings p).encounters settings script

end Session

/-- A dialogue may go on with any script. -/
theorem Dialogue.play {settings : SessionSettings} {name : String} {b : Broker}
    {R : List Encounter} {s : Session} (h : Dialogue settings name b R s)
    (script : List (Broker × Stimulus)) :
    Dialogue settings name b (R ++ s.encounters settings script)
      (script.foldl (Session.after settings) s) := by
  induction script generalizing R s with
  | nil =>
      rw [Session.encounters, List.append_nil]
      exact h
  | cons p script ih =>
      have hrest := ih (h.met p.1 p.2)
      rw [List.append_assoc] at hrest
      exact hrest

/-- What a connection meets with if these stimuli come after it is opened. -/
theorem dialogue_of_script (settings : SessionSettings) (name : String) (b : Broker)
    (script : List (Broker × Stimulus)) :
    Dialogue settings name b ((Session.start name settings b).session.encounters settings script)
      (script.foldl (Session.after settings) (Session.start name settings b).session) :=
  Dialogue.opened.play script

variable {settings : SessionSettings} {b : Broker} {s : Session} {x : Encounter}

/-! ## after registration -/

/-- The session is registered or over. -/
def Session.IsPast (s : Session) : Prop :=
  s.phase = .over ∨ ∃ number watch, s.phase = .serving number watch

theorem lastSession_unregisterSession (b : Broker) (ext : String) (number : Nat) :
    (b.unregisterSession ext number).registry.lastSession = b.registry.lastSession := by
  obtain hsame | hremoved := Broker.registry_unregisterSession b ext number
  · rw [hsame]
  · rw [hremoved]
    rfl

theorem registry_takeFrame (s : Session) (b : Broker) (number : Nat) (f : Frame) :
    (s.takeFrame b number f).2.registry = b.registry := by
  unfold Session.takeFrame
  split
  · rfl
  · split
    · exact Broker.registry_inject _ _ _ _
    · rfl
    · split
      · exact Broker.registry_respond _ _ _
      · rfl

/-- Behind the turn the session is registered or over, and none has begun. -/
structure Past (b : Broker) (t : Turn) : Prop where
  session : t.session.IsPast
  lastSession : t.broker.registry.lastSession = b.registry.lastSession

/-- A session that leaves is over, and begins no other. -/
theorem past_leave (s : Session) (b : Broker) (number : Nat) : Past b (s.leave b number) :=
  ⟨.inl rfl, lastSession_unregisterSession b s.name number⟩

theorem past_reply (hs : s.IsPast) {r : Except Fault Unit × Broker}
    (hr : r.2.registry = b.registry) : Past b (s.reply r) := by
  unfold Session.reply
  split
  · exact ⟨hs, congrArg (·.lastSession) hr⟩
  · exact ⟨hs, congrArg (·.lastSession) hr⟩

/-- No message takes a registered session back to the handshake. -/
theorem past_hear (s : Session) (b : Broker) (number : Nat) (watch : Watch) (m : Message) :
    Past b (s.hear b number watch m) := by
  have hheard : Session.IsPast { s with phase := .serving number (watch.heard b.now) } :=
    .inr ⟨_, _, rfl⟩
  unfold Session.hear
  dsimp only
  split
  · exact past_reply hheard (registry_takeFrame _ _ _ _)
  · exact past_leave s b number
  · exact past_leave s b number
  · exact past_reply hheard rfl
  · exact ⟨hheard, rfl⟩
  · exact ⟨hheard, rfl⟩
  · exact past_reply hheard rfl

theorem past_tick {number : Nat} {watch : Watch} (hs : s.phase = .serving number watch)
    (settings : SessionSettings) (b : Broker) : Past b (s.tick settings b) := by
  have hserving : ∀ w, Session.IsPast { s with phase := .serving number w } :=
    fun w => .inr ⟨_, w, rfl⟩
  unfold Session.tick
  rw [hs]
  dsimp only
  split
  · exact ⟨hserving _, rfl⟩
  · split
    · split
      · exact ⟨(past_leave s b number).session, (past_leave s b number).lastSession⟩
      · exact ⟨hserving _, rfl⟩
    · exact ⟨.inr ⟨_, _, hs⟩, rfl⟩

theorem past_deliver {number : Nat} {watch : Watch} (hs : s.phase = .serving number watch)
    (b : Broker) : Past b (s.deliver b) := by
  unfold Session.deliver
  rw [hs]
  dsimp only
  split
  · exact ⟨.inr ⟨_, _, rfl⟩, rfl⟩
  · exact ⟨(past_leave s b number).session, (past_leave s b number).lastSession⟩

/-- A session that is over stays so, and does nothing. -/
theorem turn_of_over (h : x.session.phase = .over) :
    x.turn settings = x.session.idle x.broker := by
  unfold Encounter.turn Session.receive Session.tick Session.deliver
  rw [h]
  cases x.stimulus <;> rfl

/-- A session that has been registered begins no session, and does not go back. -/
theorem past_turn (h : x.session.IsPast) : Past x.broker (x.turn settings) := by
  cases h with
  | inl hover =>
      rw [turn_of_over hover]
      exact ⟨.inl hover, rfl⟩
  | inr hserving =>
      obtain ⟨number, watch, hs⟩ := hserving
      unfold Encounter.turn
      cases x.stimulus with
      | hears m =>
          unfold Session.receive
          rw [hs]
          cases m with
          | some m => exact past_hear x.session x.broker number watch m
          | none => exact past_leave x.session x.broker number
      | ticks => exact past_tick hs settings x.broker
      | hands => exact past_deliver hs x.broker

end Intercept
