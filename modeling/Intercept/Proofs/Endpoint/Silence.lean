import Intercept.Proofs.Broker.Identity
import Intercept.Proofs.Endpoint.Watch

/-!
# Intercept.Proofs.Endpoint.Silence

How long a registered session bears the silence of its extension.

```
Timely lag R             the session looks for silence at most `lag` late
Excused settings R t k   t is less than k behind the end of a silence that is borne, or at most k
                         behind a delivery
Attentive .. R w         when a session that met with R looks next, and at what
Hosted .. R s b          a dialogue with one broker
Busy i R s b             a silent extension, after i deliveries
```

The look for silence is put off by whatever happens to the session.  A ping
puts it off once, since the next ping is far away (`Attentive.pinged`); a
delivery puts it off as often as there is one (`Dialogue.put_off`).  So a
session outlives the silence that it should bear by less than two delays,
unless something has been delivered since (`Dialogue.silence_bounded`); and as
long as the delays between deliveries are short it outlives any silence
(`exists_silent`).
-/

namespace Intercept

variable {settings : SessionSettings} {name : String} {b : Broker} {R : List Encounter}
  {s : Session} {x : Encounter} {number lag : Nat} {w : Watch}

/-! ## the attention of a session -/

/-- As long as the session is registered it is never later than this for the look for silence. -/
def Timely (lag : Nat) (R : List Encounter) : Prop :=
  ∀ x ∈ R, ∀ number w, x.session.phase = .serving number w → x.now ≤ w.checkDue + lag

/-- The time is less than `k` behind the end of a silence that is borne, or at most `k` behind a
delivery. -/
def Excused (settings : SessionSettings) (R : List Encounter) (t k : Nat) : Prop :=
  (∃ y ∈ R, y.Hears ∧ t < y.now + settings.idleTimeout + k) ∨ ∃ y ∈ R, y.Delivers ∧ t ≤ y.now + k

theorem Excused.mono {t t' k k' : Nat} (h : Excused settings R t k) (hle : t' + k ≤ t + k') :
    Excused settings R t' k' := by
  obtain ⟨y, hy, hhears, ht⟩ | ⟨y, hy, hdelivers, ht⟩ := h
  · exact .inl ⟨y, hy, hhears, by omega⟩
  · exact .inr ⟨y, hy, hdelivers, by omega⟩

theorem Excused.append {t k : Nat} (h : Excused settings R t k) (R' : List Encounter) :
    Excused settings (R ++ R') t k :=
  h.imp (fun ⟨y, hy, h⟩ => ⟨y, List.mem_append_left _ hy, h⟩)
    fun ⟨y, hy, h⟩ => ⟨y, List.mem_append_left _ hy, h⟩

/-- When a registered session looks for silence next, and that it keeps in mind when it last heard
its extension. -/
structure Attentive (settings : SessionSettings) (lag : Nat) (R : List Encounter) (w : Watch) :
    Prop where
  heard : ∃ y ∈ R, y.Hears ∧ y.now = w.lastActivity
  /-- The look has been put off by what excuses it, or by a ping behind that, and then the next ping
  comes behind the look. -/
  looks : Excused settings R w.checkDue Watch.checkDelay ∨
    Excused settings R w.checkDue (2 * Watch.checkDelay + lag) ∧ w.checkDue + lag < w.pingDue

/-- What excuses the session puts the look off. -/
theorem Attentive.stirred (hheard : ∃ y ∈ R ++ [x], y.Hears ∧ y.now = w.lastActivity)
    (hexcused : Excused settings (R ++ [x]) x.now 0)
    (hdue : w.checkDue = x.now + Watch.checkDelay) : Attentive settings lag (R ++ [x]) w :=
  ⟨hheard, .inl (hexcused.mono (by omega))⟩

/-- A turn that leaves the times alone. -/
theorem Attentive.same (h : Attentive settings lag R w) (x : Encounter) :
    Attentive settings lag (R ++ [x]) w := by
  obtain ⟨⟨y, hy, hhears, hnow⟩, hlooks⟩ := h
  refine ⟨⟨y, List.mem_append_left _ hy, hhears, hnow⟩, ?_⟩
  exact hlooks.imp (fun h => h.append [x]) fun h => ⟨h.1.append [x], h.2⟩

/-- A ping puts the look off, but the next ping comes behind that. -/
theorem Attentive.pinged (h : Attentive settings lag R w) (hlag : lag + 255 < settings.pingInterval)
    (hx : x.now ≤ w.checkDue + lag) (hping : w.pingDue ≤ x.now) :
    Attentive settings lag (R ++ [x]) (w.pinged x.now settings.pingInterval) := by
  obtain ⟨y, hy, hhears, hnow⟩ := h.heard
  refine ⟨⟨y, List.mem_append_left _ hy, hhears, hnow⟩, .inr ⟨?_, ?_⟩⟩
  · obtain hlooks | ⟨_, hbehind⟩ := h.looks
    · refine (hlooks.append [x]).mono ?_
      simp only [Watch.pinged, Watch.stirred]
      omega
    · omega
  · have hnext := w.le_pingDue_pinged x.now settings.pingInterval
    have hlook : (w.pinged x.now settings.pingInterval).checkDue = x.now + Watch.checkDelay := rfl
    simp only [Watch.pingSlack, Watch.checkDelay] at hnext hlook
    omega

/-- **What a turn leaves of the attention of a registered session.** -/
theorem Attentive.turn (h : Attentive settings lag R w) (hidle : 0 < settings.idleTimeout)
    (hlag : lag + 255 < settings.pingInterval)
    (hs : x.session.phase = .serving number w) (hx : x.now ≤ w.checkDue + lag)
    (hgoes : (x.turn settings).session.phase ≠ .over) :
    Attentive settings lag (R ++ [x]) (x.watchAfter settings number w) := by
  have hmem : x ∈ R ++ [x] := List.mem_append_right R List.mem_cons_self
  obtain ⟨y, hy, hhears, hnow⟩ := h.heard
  have hy : y ∈ R ++ [x] := List.mem_append_left _ hy
  unfold Encounter.watchAfter
  cases hstimulus : x.stimulus with
  | hears m =>
      cases m with
      | none =>
          refine absurd ?_ hgoes
          unfold Encounter.turn Session.receive
          rw [hstimulus, hs]
          rfl
      | some m =>
          have hhears : x.Hears := ⟨m, hstimulus⟩
          exact .stirred ⟨x, hmem, hhears, rfl⟩ (.inl ⟨x, hmem, hhears, by omega⟩) rfl
  | ticks =>
      dsimp only
      by_cases hping : w.pingDue ≤ x.now
      · rw [if_pos hping]
        exact h.pinged hlag hx hping
      · rw [if_neg hping]
        by_cases hcheck : w.checkDue ≤ x.now
        · -- it has looked, and gone on
          have hborne : ¬w.lastActivity + settings.idleTimeout ≤ x.now := fun hsilent =>
            hgoes (over_of_silent hs hstimulus (Nat.lt_of_not_le hping) hcheck hsilent)
          rw [if_pos hcheck]
          exact .stirred ⟨y, hy, hhears, hnow⟩ (.inl ⟨y, hy, hhears, by omega⟩) rfl
        · rw [if_neg hcheck]
          exact h.same x
  | hands =>
      dsimp only
      by_cases hframes : x.broker.queued number = []
      · rw [if_pos hframes]
        exact h.same x
      · rw [if_neg hframes]
        exact .stirred ⟨y, hy, hhears, hnow⟩
          (.inr ⟨x, hmem, ⟨hstimulus, number, w, hs, hframes⟩, Nat.le_refl _⟩) rfl

/-- A session that has just been registered. -/
theorem Attentive.start (hidle : 0 < settings.idleTimeout) (hhears : x.Hears) :
    Attentive settings lag (R ++ [x]) (.start x.now) := by
  have hmem : x ∈ R ++ [x] := List.mem_append_right R List.mem_cons_self
  exact .stirred ⟨x, hmem, hhears, rfl⟩ (.inl ⟨x, hmem, hhears, by omega⟩) rfl

/-- A session is attentive whenever it is registered. -/
theorem Dialogue.attentive (h : Dialogue settings name b R s) (hidle : 0 < settings.idleTimeout)
    (hlag : lag + 255 < settings.pingInterval) (ht : Timely lag R)
    (hs : s.phase = .serving number w) : Attentive settings lag R w := by
  induction h generalizing number w with
  | opened =>
      unfold Session.start at hs
      dsimp only at hs
      split at hs
      · cases hs
      · cases hs
  | @met R s b' stimulus _ ih =>
      let x : Encounter := ⟨s, b', stimulus⟩
      obtain ⟨v, hv, rfl⟩ | ⟨hhears, rfl⟩ := serving_before (x := x) hs
      · have hgoes : (x.turn settings).session.phase ≠ .over := by
          rw [hs]
          nofun
        have hbefore := ih (fun y hy => ht y (List.mem_append_left _ hy)) hv
        have hx := ht x (List.mem_append_right _ List.mem_cons_self) number v hv
        exact hbefore.turn hidle hlag hv hx hgoes
      · exact .start hidle hhears

/-! ## how long deliveries put the look off -/

/-- The session does not look for silence soon after a delivery. -/
theorem Dialogue.put_off (h : Dialogue settings name b R s) (hclock : R.Pairwise (·.now ≤ ·.now))
    {y : Encounter} (hy : y ∈ R) (hdelivers : y.Delivers) (hs : s.phase = .serving number w) :
    y.now + Watch.checkDelay ≤ w.checkDue := by
  induction h generalizing number w with
  | opened => cases hy
  | @met R s b' stimulus _ ih =>
      obtain ⟨hR, _, hlast⟩ := List.pairwise_append.mp hclock
      have hyx : y.now + Watch.checkDelay ≤ b'.now + Watch.checkDelay := by
        refine Nat.add_le_add_right ?_ _
        cases List.mem_append.mp hy with
        | inl hold => exact hlast y hold ⟨s, b', stimulus⟩ List.mem_cons_self
        | inr hnew => rw [List.mem_singleton.mp hnew]
      obtain ⟨v, hv, rfl⟩ | ⟨_, rfl⟩ := serving_before (x := ⟨s, b', stimulus⟩) hs
      · cases List.mem_append.mp hy with
        | inl hold =>
            obtain hkept | hput := checkDue_watchAfter settings ⟨s, b', stimulus⟩ number v
            · rw [hkept]
              exact ih hR hold hv
            · rw [hput]
              exact hyx
        | inr hnew =>
            obtain rfl := List.mem_singleton.mp hnew
            rw [watchAfter_of_delivers hdelivers hv]
            exact Nat.le_refl _
      · exact hyx

/-! ## deliveries to a silent extension -/

/-- A dialogue with one broker: between two turns nothing happens to it but events. -/
inductive Hosted (settings : SessionSettings) (name : String) (b : Broker) :
    List Encounter → Session → Broker → Prop where
  | opened : Hosted settings name b [] (Session.start name settings b).session
      (Session.start name settings b).broker
  | met {R : List Encounter} {s : Session} {b₁ b₂ : Broker} (stimulus : Stimulus) :
      Hosted settings name b R s b₁ → b₁.LeadsTo b₂ →
      Hosted settings name b (R ++ [⟨s, b₂, stimulus⟩])
        (Encounter.turn settings ⟨s, b₂, stimulus⟩).session
        (Encounter.turn settings ⟨s, b₂, stimulus⟩).broker

theorem Hosted.dialogue {b' : Broker} (h : Hosted settings name b R s b') :
    Dialogue settings name b R s := by
  induction h with
  | opened => exact .opened
  | met stimulus _ _ ih => exact ih.met _ stimulus

/-- The timers of a registered session go off on time. -/
def Prompt (R : List Encounter) : Prop :=
  ∀ x ∈ R, ∀ number w, x.session.phase = .serving number w → x.now ≤ w.pingDue ∧ x.now ≤ w.checkDue

theorem Prompt.timely (h : Prompt R) : Timely lag R := fun x hx number w hs =>
  Nat.le_add_right_of_le (h x hx number w hs).2

/-- Up to the time `t` the timers have gone off on time, and the extension has said nothing since
the beginning. -/
structure Quiet (t : Nat) (R : List Encounter) : Prop where
  prompt : Prompt R
  clock : R.Pairwise (·.now ≤ ·.now)
  past : ∀ y ∈ R, y.now ≤ t
  heard : ∀ y ∈ R, y.Hears → y.now = 0

theorem Quiet.concat {t : Nat} (h : Quiet t R) (ht : t ≤ x.now)
    (hprompt : ∀ number w, x.session.phase = .serving number w →
      x.now ≤ w.pingDue ∧ x.now ≤ w.checkDue)
    (hsilent : ¬x.Hears) : Quiet x.now (R ++ [x]) where
  prompt := List.forall_mem_append.mpr ⟨h.prompt, List.forall_mem_singleton.mpr hprompt⟩
  clock := List.pairwise_append.mpr ⟨h.clock, List.pairwise_singleton _ x, fun y hy =>
    List.forall_mem_singleton.mpr ((h.past y hy).trans ht)⟩
  past := List.forall_mem_append.mpr ⟨fun y hy => (h.past y hy).trans ht,
    List.forall_mem_singleton.mpr (Nat.le_refl _)⟩
  heard := List.forall_mem_append.mpr ⟨h.heard, List.forall_mem_singleton.mpr fun hx =>
    absurd hx hsilent⟩

/-- All that an extension wants is to be told of texts. -/
def watching : Interest := { id := 1, kind := .net .genericText, blocking := .sendAndForget }

/-- It is registered with a broker that nobody else has used. -/
def watched : Broker := (Broker.new {}).register "x" [watching] 1024

/-- The copy of a text for the extension. -/
def copyOfText (b : Broker) : Frame :=
  ⟨.deliver, .clientToServer, b.freshId, 1, 0, 0, [2, 0, 0, 0, 0]⟩

theorem links_submit_text (hsettings : b.settings = {}) (hregistry : b.registry = watched.registry)
    (hlinks : b.links = watched.links) :
    (b.submit [2, 0, 0, 0, 0] .clientToServer 0).2.links =
      [⟨1, "x", ⟨1024, [copyOfText b], true⟩⟩] := by
  obtain ⟨settings, registry, links, chains, correlations, outcomes, injected, nextId, now,
    metrics⟩ := b
  cases hsettings
  cases hregistry
  cases hlinks
  cbv

/-- A text comes every 200 milliseconds and is delivered at once; `i` have come. -/
structure Busy (i : Nat) (R : List Encounter) (s : Session) (b : Broker) : Prop where
  hosted : Hosted {} "x" (.new {}) R s b
  session : ∃ j, i < j ∧ s = ⟨"x", .serving 1 ⟨0, 200 * j, 200 * i + 250⟩⟩
  settings : b.settings = {}
  registry : b.registry = watched.registry
  links : b.links = watched.links
  now : b.now = 200 * i
  quiet : Quiet (200 * i) R
  delivered : 0 < i → ∃ y ∈ R, y.Delivers ∧ y.now = 200 * i

/-- The extension is registered, and has got its first ping. -/
theorem busy_start {greeting wishes : Message} (hgreets : greeting.greets "x" = true)
    (hdeclared : wishes.declared? = some [watching]) : ∃ R s b, Busy 0 R s b := by
  let x : Encounter := ⟨⟨"x", .greeting 5000⟩, .new {}, .hears (some greeting)⟩
  let y : Encounter := ⟨⟨"x", .declaring 5000⟩, .new {}, .hears (some wishes)⟩
  let z : Encounter := ⟨⟨"x", .serving 1 ⟨0, 0, 250⟩⟩, watched, .ticks⟩
  have hx : x.turn {} = ⟨y.session, .new {}, greeting.answers "x"⟩ := turn_of_greets rfl rfl hgreets
  have hy : y.turn {} = ⟨z.session, watched, [.ofControl .connected]⟩ :=
    turn_of_declared rfl rfl hdeclared
  have hz : Encounter.turn {} ⟨⟨"x", .serving 1 ⟨0, 0, 250⟩⟩, watched, .ticks⟩ =
      ⟨⟨"x", .serving 1 ⟨0, 20000, 250⟩⟩, watched, [.ping []]⟩ := rfl
  have hgreeted : Hosted {} "x" (.new {}) [x] (x.turn {}).session (x.turn {}).broker :=
    Hosted.opened.met x.stimulus .refl
  rw [hx] at hgreeted
  have hregistered : Hosted {} "x" (.new {}) [x, y] (y.turn {}).session (y.turn {}).broker :=
    hgreeted.met y.stimulus .refl
  rw [hy] at hregistered
  have hpinged : Hosted {} "x" (.new {}) [x, y, z] (z.turn {}).session (z.turn {}).broker :=
    hregistered.met .ticks .refl
  rw [hz] at hpinged
  have hnow : ∀ e ∈ [x, y, z], e.now = 0 :=
    List.forall_mem_cons.mpr ⟨rfl, List.forall_mem_cons.mpr ⟨rfl,
      List.forall_mem_singleton.mpr rfl⟩⟩
  refine ⟨[x, y, z], _, _, hpinged, ⟨100, by decide, rfl⟩, rfl, rfl, rfl, rfl,
    ⟨?_, ?_, fun e he => (hnow e he).le, fun e he _ => hnow e he⟩, nofun⟩
  · refine List.forall_mem_cons.mpr ⟨nofun, List.forall_mem_cons.mpr ⟨nofun, ?_⟩⟩
    refine List.forall_mem_singleton.mpr fun number w hs => ?_
    cases hs
    exact ⟨Nat.zero_le _, Nat.zero_le _⟩
  · exact List.pairwise_of_forall_mem_list fun e he e' he' => by rw [hnow e he, hnow e' he']

/-- The look for silence is still ahead when the next text comes. -/
theorem watchAfter_between {i j : Nat} (hj : i < j) (hnow : x.broker.now = 200 * (i + 1))
    (hticks : x.stimulus = .ticks) (number : Nat) : ∃ j' due, i + 1 < j' ∧ 200 * (i + 1) ≤ due ∧
      x.watchAfter {} number ⟨0, 200 * j, 200 * i + 250⟩ = ⟨0, 200 * j', due⟩ := by
  unfold Encounter.watchAfter
  rw [hticks]
  dsimp only
  by_cases hping : 200 * j ≤ x.broker.now
  · have hlate : ¬200 * j + 5 < x.broker.now := by omega
    have hnext : 200 * j + 20000 = 200 * (j + 100) := by omega
    rw [if_pos hping]
    unfold Watch.pinged Watch.stirred Watch.pingSlack
    rw [if_neg hlate, hnext]
    exact ⟨j + 100, _, by omega, by rw [hnow]; exact Nat.le_add_right _ _, rfl⟩
  · have hcheck : ¬200 * i + 250 ≤ x.broker.now := by omega
    rw [if_neg hping, if_neg hcheck]
    exact ⟨j, _, by omega, by omega, rfl⟩

/-- A text is on its way to the extension. -/
structure Awaited (t : Nat) (b : Broker) : Prop where
  settings : b.settings = {}
  registry : b.registry = watched.registry
  links : ∃ frame, b.links = [⟨1, "x", ⟨1024, [frame], true⟩⟩]
  now : b.now = t

/-- A silent extension that is busy is sent one more delivery. -/
theorem Busy.awaited {i : Nat} (h : Busy i R s b) :
    ∃ b', b.LeadsTo b' ∧ Awaited (200 * (i + 1)) b' := by
  have hturn := Broker.turn_submit (b.later 200) [2, 0, 0, 0, 0] .clientToServer 0
  have hnow : (b.later 200).now = 200 * (i + 1) := by rw [Broker.later, h.now]; rfl
  refine ⟨((b.later 200).submit [2, 0, 0, 0, 0] .clientToServer 0).2,
    (Broker.LeadsTo.refl.step (.later 200)).step (.submit [2, 0, 0, 0, 0] .clientToServer 0), ?_⟩
  exact {
    settings := hturn.settings.trans h.settings
    registry := (Broker.registry_submit (b.later 200) _ _ _).trans h.registry
    links := ⟨_, links_submit_text h.settings h.registry h.links⟩
    now := hturn.now.trans hnow }

/-- The timers are looked at, and then the text is handed out. -/
theorem Busy.round {i : Nat} (h : Busy i R s b) : ∃ R s b, Busy (i + 1) R s b := by
  obtain ⟨j, hj, rfl⟩ := h.session
  obtain ⟨b', hleads, hb'⟩ := h.awaited
  obtain ⟨frame, hlinks⟩ := hb'.links
  have hnow := hb'.now
  have hframes : b'.queued 1 = [frame] := by rw [Broker.queued, hlinks]; rfl
  have hcurrent : b'.registry.isCurrent "x" 1 = true := by rw [hb'.registry]; rfl
  let x : Encounter := ⟨⟨"x", .serving 1 ⟨0, 200 * j, 200 * i + 250⟩⟩, b', .ticks⟩
  obtain ⟨j', due, hj', hdue, hwatch⟩ := watchAfter_between (x := x) hj hnow rfl 1
  let y : Encounter := ⟨⟨"x", .serving 1 ⟨0, 200 * j', due⟩⟩, b', .hands⟩
  have hdelivers : y.Delivers := ⟨rfl, 1, _, rfl, by rw [hframes]; nofun⟩
  have hlooked : Hosted {} "x" (.new {}) (R ++ [x]) (x.turn {}).session (x.turn {}).broker :=
    h.hosted.met .ticks hleads
  have hcheck : b'.now < 200 * i + 250 := by omega
  obtain ⟨hsession, hbroker⟩ := serving_of_tick (x := x) {} rfl rfl hcheck
  rw [hsession, hbroker, hwatch] at hlooked
  have hhanded : Hosted {} "x" (.new {}) (R ++ [x] ++ [y]) (y.turn {}).session
      (y.turn {}).broker := hlooked.met .hands .refl
  obtain ⟨hsession, hbroker⟩ := serving_of_hands (x := y) {} rfl rfl hcurrent
  rw [hsession, hbroker, watchAfter_of_delivers hdelivers rfl] at hhanded
  have hsame : y.now = 200 * (i + 1) := hnow
  have hxnow : x.now = 200 * (i + 1) := hnow
  have hlater : 200 * i ≤ x.now := by omega
  have hping : b'.now ≤ 200 * j ∧ b'.now ≤ 200 * i + 250 := by omega
  have hquiet := h.quiet.concat hlater (fun number w hs => by cases hs; exact hping) nofun
  have hping' : b'.now ≤ 200 * j' ∧ b'.now ≤ due := by omega
  have hquiet := hquiet.concat (x := y) (Nat.le_refl _)
    (fun number w hs => by cases hs; exact hping') nofun
  rw [hsame] at hhanded hquiet
  refine ⟨_, _, _, hhanded, ⟨j', hj', rfl⟩, hb'.settings, hb'.registry, ?_, hnow, hquiet,
    fun _ => ⟨y, by simp, hdelivers, hsame⟩⟩
  unfold Broker.drainLink Broker.mapQueue
  rw [hlinks]
  rfl

/-- A silent extension can be busy after any number of deliveries. -/
theorem exists_busy (i : Nat) : ∃ R s b, Busy i R s b := by
  induction i with
  | zero =>
      have hgreets : (Message.text "[\"handshake\",1,\"x\"]").greets "x" = true := by
        decide +kernel
      have hdeclared : (Message.text <| "[\"capability_response\"," ++
          "[[1,\x7b\"net\":\"GENERIC_TEXT\"\x7d,0,\"send_and_forget\"]]]").declared? =
            some [watching] := by decide +kernel
      exact busy_start hgreets hdeclared
  | succ i ih =>
      obtain ⟨R, s, b, h⟩ := ih
      exact h.round

/-- However long the extension is silent, a session may be open, and about to look at its timers. -/
theorem exists_silent (time : Nat) : ∃ R s b number w, Hosted {} "x" (.new {}) R s b ∧
    s.phase = .serving number w ∧ Quiet b.now (R ++ [⟨s, b, .ticks⟩]) ∧
    (∀ y ∈ R, y.Hears → y.now + time ≤ b.now) ∧ ∃ y ∈ R, y.Delivers ∧ y.now = b.now := by
  obtain ⟨R, s, b, h⟩ := exists_busy (time + 1)
  obtain ⟨j, hj, rfl⟩ := h.session
  have hnow := h.now
  have htimes : b.now ≤ 200 * j ∧ b.now ≤ 200 * (time + 1) + 250 := by omega
  obtain ⟨y, hy, hdelivers, hynow⟩ := h.delivered (Nat.succ_pos time)
  refine ⟨R, _, b, 1, _, h.hosted, rfl, ?_, fun y hy hhears => ?_,
    y, hy, hdelivers, hynow.trans hnow.symm⟩
  · exact h.quiet.concat (x := ⟨_, b, .ticks⟩) hnow.ge
      (fun number w hs => by cases hs; exact htimes) nofun
  · rw [h.quiet.heard y hy hhears, hnow]
    omega

/-! ## how long silence is borne -/

/-- **A session bears the silence of its extension for as long as it should, and longer only while
something is delivered.**  If it is never more than `lag` late to look, then whenever it is found
open it has heard its extension within the time allowed and two delays more, or something has been
delivered within two delays (each of them late by `lag`).  And within one delay of a delivery its
timers never end it, whatever the silence. -/
theorem Dialogue.silence_bounded (h : Dialogue settings name b R s)
    (hidle : 0 < settings.idleTimeout) (hlag : lag + 255 < settings.pingInterval)
    (ht : Timely lag R) {pre post : List Encounter}
    (hR : R = pre ++ x :: post) (hs : x.session.phase = .serving number w) :
    Excused settings pre x.now (500 + 2 * lag) ∧
    (R.Pairwise (·.now ≤ ·.now) → ∀ y ∈ pre, y.Delivers → x.now < y.now + Watch.checkDelay →
      x.stimulus = .ticks → (x.turn settings).session.phase =
        .serving number (x.watchAfter settings number w)) := by
  have hbefore := h.before hR
  have hpre : pre ⊆ R := by
    rw [hR]
    exact List.subset_append_left _ _
  have hx : x.now ≤ w.checkDue + lag := ht x (by rw [hR]; simp) number w hs
  have hattentive := hbefore.attentive hidle hlag (fun y hy => ht y (hpre hy)) hs
  refine ⟨?_, fun hclock y hy hdelivers hsoon hticks => ?_⟩
  · obtain hlook | ⟨hlook, _⟩ := hattentive.looks
    · refine hlook.mono ?_
      simp only [Watch.checkDelay]
      omega
    · refine hlook.mono ?_
      simp only [Watch.checkDelay]
      omega
  · rw [hR] at hclock
    have hlook := hbefore.put_off (List.pairwise_append.mp hclock).1 hy hdelivers hs
    rw [(serving_of_tick settings hs hticks (by omega)).1]

/-- An extension has been silent for more than its time, with texts delivered to it all along.  Its
session is open, and goes on when its timers are looked at. -/
theorem silence_bounded_by_deliveries : ∃ R x number w, Dialogue {} "x" (.new {}) R x.session ∧
    Timely 0 (R ++ [x]) ∧ x.session.phase = .serving number w ∧
    (∀ y ∈ R, y.Hears → y.now + 60500 ≤ x.now) ∧ Excused {} R x.now 500 ∧
    (x.turn {}).session.phase = .serving number (x.watchAfter {} number w) := by
  obtain ⟨R, s, b, number, w, h, hs, hquiet, hsilent, y, hy, hdelivers, hynow⟩ :=
    exists_silent 60500
  let x : Encounter := ⟨s, b, .ticks⟩
  have hdialogue : Dialogue {} "x" (.new {}) (R ++ [x]) (x.turn {}).session :=
    h.dialogue.met b .ticks
  have htimely : Timely 0 (R ++ [x]) := hquiet.prompt.timely
  obtain ⟨hexcused, hgoes⟩ :=
    hdialogue.silence_bounded (by decide) (by decide) htimely rfl (x := x) hs
  have hsoon : x.now < y.now + Watch.checkDelay := by
    rw [hynow]
    exact Nat.lt_add_of_pos_right (by decide)
  exact ⟨R, x, number, w, h.dialogue, htimely, hs, hsilent, hexcused,
    hgoes hquiet.clock y hy hdelivers hsoon rfl⟩

/-- Not every session that is open has heard its extension within the time allowed and two delays,
even if every timer goes off on time. -/
theorem silence_not_bounded_by_hearing : ¬∀ (settings : SessionSettings) (bs : BrokerSettings) name
    R s b, settings.defect? = none → bs.defect? = none → Hosted settings name (.new bs) R s b →
      Prompt R → R.Pairwise (·.now ≤ ·.now) → ∀ pre x post number w, R = pre ++ x :: post →
        x.session.phase = .serving number w →
        ∃ y ∈ pre, y.Hears ∧ x.now < y.now + settings.idleTimeout + 500 := by
  intro hheard
  obtain ⟨R, s, b, number, w, h, hs, hquiet, hsilent, _⟩ := exists_silent 60500
  obtain ⟨y, hy, hhears, hlt⟩ := hheard {} {} "x" _ _ _ rfl rfl (h.met .ticks .refl)
    hquiet.prompt hquiet.clock R ⟨s, b, .ticks⟩ [] number w rfl hs
  exact absurd hlt (Nat.not_lt_of_le (hsilent y hy hhears))

end Intercept
