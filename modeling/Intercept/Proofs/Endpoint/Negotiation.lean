import Intercept.Proofs.Endpoint.Dialogue

/-!
# Intercept.Proofs.Endpoint.Negotiation

What a session that is not registered makes of what it meets with.

```
m.greets name          m is a handshake of the only version under this name
m.declared?            the interests that m declares, if it does and they compile
heeded deadline R      what the session takes notice of in R: messages but frames, pings and pongs,
                       and `none` for the end, be it of the connection or of the time
x.Grounds fault        x ends its session, and this fault says why
Waits .. s good next   s waits for a good message
```

Whatever comes is one of three things to a session that waits: it is skipped,
it is what the session waits for, or there are grounds to end the session
(`Waits.waited`).  Both states of a handshake wait in the same way, for another
message.
-/

namespace Intercept

/-! ## messages before registration -/

namespace Message

/-- Frames, pings and pongs are skipped. -/
def isSkipped (m : Message) : Bool :=
  match m.decode with
  | .ok (.frame _) | .ok (.ping _) | .ok (.pong _) => true
  | _ => false

/-- Whether this is the handshake of the only version, under this name. -/
def greets (m : Message) (name : String) : Bool :=
  match m.decode with
  | .ok (.control (.handshake version n)) => version = Control.version ∧ n = name
  | _ => false

/-- The interests that are declared, if this is a declaration and they compile. -/
def declared? (m : Message) : Option (List Interest) :=
  match m.decode with
  | .ok (.control (.capabilityResponse interests)) => (Interest.compile interests).toOption
  | _ => none

/-- What is sent on a message that does not register anybody and does not end the session: a frame
is refused, a ping is answered, and a handshake is answered with the request for the interests. -/
def answers (m : Message) (name : String) : List Message :=
  match m.decode with
  | .ok (.frame _) => [.ofControl (.error "UNKNOWN_EXTENSION" s!"unknown extension: {name}")]
  | .ok (.ping payload) => [.pong payload]
  | .ok (.control (.handshake ..)) => [.ofControl .capabilityRequest]
  | _ => []

end Message

variable {settings : SessionSettings} {name : String} {b : Broker} {R : List Encounter}
  {s : Session} {deadline : Nat} {x : Encounter} {m : Message}

/-- Why an encounter ends a session that waits for a handshake or for interests. -/
inductive Encounter.Grounds (x : Encounter) : Fault → Prop
  /-- The time is over. -/
  | late {deadline : Nat} :
      x.session.phase = .greeting deadline ∨ x.session.phase = .declaring deadline →
      x.stimulus = .ticks → deadline ≤ x.broker.now → Grounds x (.badRequest "handshake timed out")
  /-- The connection ends. -/
  | ended : x.stimulus = .hears none → Grounds x (.extensionGone x.session.name)
  /-- The extension leaves. -/
  | left (m : Message) : x.stimulus = .hears (some m) →
      m.decode = .ok (.control .disconnect) ∨ m.decode = .ok .close →
      Grounds x (.extensionGone x.session.name)
  /-- Something comes that does not decode. -/
  | garbled (m : Message) (fault : Fault) : x.stimulus = .hears (some m) →
      m.decode = .error fault → Grounds x fault
  /-- A handshake is of another version. -/
  | dated (m : Message) (deadline : Nat) (version : UInt8) (name : String) :
      x.session.phase = .greeting deadline → x.stimulus = .hears (some m) →
      m.decode = .ok (.control (.handshake version name)) → version ≠ Control.version →
      Grounds x .unsupportedVersion
  /-- A handshake is under another name. -/
  | stranger (m : Message) (deadline : Nat) (name : String) :
      x.session.phase = .greeting deadline → x.stimulus = .hears (some m) →
      m.decode = .ok (.control (.handshake Control.version name)) → name ≠ x.session.name →
      Grounds x (.badRequest
        s!"handshake name {Text.quoted name} does not match {Text.quoted x.session.name}")
  /-- Something else comes in the place of a handshake. -/
  | noHandshake (m : Message) (deadline : Nat) (c : Control) :
      x.session.phase = .greeting deadline → x.stimulus = .hears (some m) →
      m.decode = .ok (.control c) → c ≠ .disconnect →
      (∀ version name, c ≠ .handshake version name) →
      Grounds x (.badRequest s!"expected handshake, got {c.describe}")
  /-- The interests that are declared do not compile. -/
  | unfit (m : Message) (deadline : Nat) (interests : Json) (fault : Fault) :
      x.session.phase = .declaring deadline → x.stimulus = .hears (some m) →
      m.decode = .ok (.control (.capabilityResponse interests)) →
      Interest.compile interests = .error fault → Grounds x fault
  /-- Something else comes in the place of interests. -/
  | noInterests (m : Message) (deadline : Nat) (c : Control) :
      x.session.phase = .declaring deadline → x.stimulus = .hears (some m) →
      m.decode = .ok (.control c) → c ≠ .disconnect →
      (∀ interests, c ≠ .capabilityResponse interests) →
      Grounds x (.badRequest s!"expected capability_response, got {c.describe}")

/-- What taking a message before registration comes to; `next` takes a control message. -/
inductive Negotiated (s : Session) (b : Broker) (next : Control → Turn) (m : Message) : Turn → Prop
    where
  | skipped : m.isSkipped = true → Negotiated s b next m { s.idle b with sent := m.answers s.name }
  | refused (fault : Fault) : m.isSkipped = false → (∀ name, m.greets name = false) →
      m.declared? = none → Encounter.Grounds ⟨s, b, .hears (some m)⟩ fault →
      Negotiated s b next m (s.reject b fault)
  | taken (c : Control) : m.isSkipped = false → m.decode = .ok (.control c) → c ≠ .disconnect →
      Negotiated s b next m (next c)

/-- A session that waits for a message skips what comes, takes it, or has grounds to end. -/
theorem negotiated (s : Session) (b : Broker) (next : Control → Turn) (m : Message) :
    Negotiated s b next m (s.negotiate b next (some m)) := by
  have hskips : ∀ told, m.isSkipped = true → m.answers s.name = told →
      Negotiated s b next m { s.idle b with sent := told } := by
    rintro told hskipped rfl
    exact .skipped hskipped
  unfold Session.negotiate
  rw [Option.map_some]
  cases hm : m.decode with
  | error fault =>
      exact .refused fault (by simp [Message.isSkipped, hm]) (by simp [Message.greets, hm])
        (by simp [Message.declared?, hm]) (.garbled m fault rfl hm)
  | ok inbound =>
      cases inbound with
      | control c =>
          cases c with
          | disconnect =>
              exact .refused _ (by simp [Message.isSkipped, hm]) (by simp [Message.greets, hm])
                (by simp [Message.declared?, hm]) (.left m rfl (.inl hm))
          | handshake | capabilityRequest | capabilityResponse | connected | error =>
              exact .taken _ (by simp [Message.isSkipped, hm]) hm nofun
      | frame f =>
          have hanswers : m.answers s.name = [.ofFault (.unknownExtension s.name)] := by
            unfold Message.answers
            rw [hm]
            rfl
          exact hskips _ (by simp [Message.isSkipped, hm]) hanswers
      | ping payload =>
          exact hskips _ (by simp [Message.isSkipped, hm]) (by simp [Message.answers, hm])
      | pong payload =>
          exact hskips [] (by simp [Message.isSkipped, hm]) (by simp [Message.answers, hm])
      | close =>
          exact .refused _ (by simp [Message.isSkipped, hm]) (by simp [Message.greets, hm])
            (by simp [Message.declared?, hm]) (.left m rfl (.inr hm))

/-- A good handshake is answered, and the declaration waited for until the same deadline. -/
theorem greet_of_greets (s : Session) (b : Broker) (deadline : Nat) {c : Control}
    (hm : m.decode = .ok (.control c)) (h : m.greets s.name = true) :
    s.greet b deadline c = ⟨{ s with phase := .declaring deadline }, b, m.answers s.name⟩ := by
  unfold Message.greets at h
  unfold Message.answers
  rw [hm] at h ⊢
  cases c with
  | handshake version n =>
      obtain ⟨rfl, rfl⟩ := of_decide_eq_true h
      simp [Session.greet]
  | capabilityRequest | capabilityResponse | connected | disconnect | error => cases h

/-- Any other control message in the place of a handshake is grounds to end the session. -/
theorem greet_of_not_greets (b : Broker) {c : Control} (hs : s.phase = .greeting deadline)
    (hm : m.decode = .ok (.control c)) (hc : c ≠ .disconnect) (h : m.greets s.name = false) :
    ∃ fault, Encounter.Grounds ⟨s, b, .hears (some m)⟩ fault ∧
      s.greet b deadline c = s.reject b fault := by
  unfold Message.greets at h
  rw [hm] at h
  unfold Session.greet
  cases c with
  | handshake version n =>
      have hne := of_decide_eq_false h
      dsimp only
      by_cases hversion : version = Control.version
      · by_cases hn : n = s.name
        · exact absurd ⟨hversion, hn⟩ hne
        · subst hversion
          exact ⟨_, .stranger m deadline n hs rfl hm hn, by
            rw [if_neg (not_not.mpr rfl), if_pos hn]⟩
      · exact ⟨_, .dated m deadline version n hs rfl hm hversion, if_pos hversion⟩
  | capabilityRequest | capabilityResponse | connected | error =>
      exact ⟨_, .noHandshake m deadline _ hs rfl hm hc nofun, rfl⟩
  | disconnect => exact absurd rfl hc

/-- A good declaration registers the session. -/
theorem declare_of_declared (s : Session) (b : Broker) {c : Control} {is : List Interest}
    (hm : m.decode = .ok (.control c)) (h : m.declared? = some is) :
    s.declare b c = s.enrol b is := by
  unfold Message.declared? at h
  rw [hm] at h
  unfold Session.declare
  cases c with
  | capabilityResponse interests =>
      dsimp only at h ⊢
      cases hcompile : Interest.compile interests with
      | ok compiled =>
          rw [hcompile] at h
          cases h
          rfl
      | error fault =>
          rw [hcompile] at h
          cases h
  | handshake | capabilityRequest | connected | disconnect | error => cases h

/-- Any other control message in the place of interests is grounds to end the session. -/
theorem declare_of_not_declared (b : Broker) {c : Control} (hs : s.phase = .declaring deadline)
    (hm : m.decode = .ok (.control c)) (hc : c ≠ .disconnect) (h : m.declared? = none) :
    ∃ fault, Encounter.Grounds ⟨s, b, .hears (some m)⟩ fault ∧
      s.declare b c = s.reject b fault := by
  unfold Message.declared? at h
  rw [hm] at h
  unfold Session.declare
  cases c with
  | capabilityResponse interests =>
      dsimp only at h ⊢
      cases hcompile : Interest.compile interests with
      | ok compiled =>
          rw [hcompile] at h
          cases h
      | error fault => exact ⟨fault, .unfit m deadline interests fault hs rfl hm hcompile, rfl⟩
  | handshake | capabilityRequest | connected | error =>
      exact ⟨_, .noInterests m deadline _ hs rfl hm hc nofun, rfl⟩
  | disconnect => exact absurd rfl hc

/-! ## turns before registration -/

namespace Encounter

/-- What a session that is not registered takes notice of: a message that is not skipped, or the
end, be it of the connection or of the time. -/
def heeded? (deadline : Nat) (x : Encounter) : Option (Option Message) :=
  match x.stimulus with
  | .hears none => some none
  | .hears (some m) => if m.isSkipped then none else some (some m)
  | .ticks => if deadline ≤ x.now then some none else none
  | .hands => none

/-- What is sent as long as the session is neither registered nor turned away. -/
def answers (x : Encounter) : List Message :=
  match x.stimulus with
  | .hears (some m) => m.answers x.session.name
  | .hears none | .ticks | .hands => []

/-- The turn leaves the broker as it is, and nothing but the answer is sent. -/
structure Harmless (settings : SessionSettings) (x : Encounter) : Prop where
  broker : (x.turn settings).broker = x.broker
  sent : (x.turn settings).sent = x.answers

/-- The turn begins a session in the registry. -/
def Registers (settings : SessionSettings) (x : Encounter) : Prop :=
  (x.turn settings).broker.registry.lastSession ≠ x.broker.registry.lastSession

/-- What is skipped registers nobody. -/
theorem Harmless.not_registers (h : x.Harmless settings) : ¬x.Registers settings := by
  unfold Registers
  rw [h.broker]
  exact fun hne => hne rfl

end Encounter

/-- All that a session takes notice of before it is registered. -/
def heeded (deadline : Nat) (R : List Encounter) : List (Option Message) :=
  R.filterMap (·.heeded? deadline)

theorem heeded_concat (deadline : Nat) (R : List Encounter) (x : Encounter) :
    heeded deadline (R ++ [x]) = heeded deadline R ++ (x.heeded? deadline).toList := by
  rw [heeded, List.filterMap_append]
  cases hx : x.heeded? deadline <;> simp [heeded, hx]

/-- The session waits for a `good` message until the deadline; `next` takes a control message. -/
structure Waits (settings : SessionSettings) (deadline : Nat) (s : Session)
    (good : Message → Prop) (next : Broker → Control → Turn) : Prop where
  phase : s.phase = .greeting deadline ∨ s.phase = .declaring deadline
  receive : ∀ b m, s.receive b m = s.negotiate b (next b) m
  tick : ∀ b, s.tick settings b =
    if deadline ≤ b.now then s.reject b (.badRequest "handshake timed out") else s.idle b
  deliver : ∀ b, s.deliver b = s.idle b
  refuses : ∀ b m c, m.decode = .ok (.control c) → c ≠ .disconnect → ¬good m →
    ∃ fault, Encounter.Grounds ⟨s, b, .hears (some m)⟩ fault ∧ next b c = s.reject b fault
  asks : ∀ m, good m → m.declared?.isSome ∨ ∃ name, m.greets name = true

/-- What a turn of a session that waits comes to. -/
inductive Waited (settings : SessionSettings) (deadline : Nat) (x : Encounter)
    (good : Message → Prop) (next : Broker → Control → Turn) : Prop where
  | skipped : x.heeded? deadline = none → x.Harmless settings →
      (x.turn settings).session = x.session → Waited settings deadline x good next
  | taken (m : Message) (c : Control) : x.stimulus = .hears (some m) →
      x.heeded? deadline = some (some m) → good m → m.decode = .ok (.control c) →
      x.turn settings = next x.broker c → Waited settings deadline x good next
  | refused (o : Option Message) (fault : Fault) : x.heeded? deadline = some o →
      (∀ m ∈ o, ¬good m) → x.Grounds fault → x.turn settings = x.session.reject x.broker fault →
      Waited settings deadline x good next

variable {good : Message → Prop} {next : Broker → Control → Turn}

theorem Waits.hears_some (h : Waits settings deadline s good next) (b : Broker) (m : Message) :
    Waited settings deadline ⟨s, b, .hears (some m)⟩ good next := by
  have hheeded : m.isSkipped = false →
      Encounter.heeded? deadline ⟨s, b, .hears (some m)⟩ = some (some m) := by
    intro hskipped
    simp [Encounter.heeded?, hskipped]
  have hturn : Negotiated s b (next b) m (Encounter.turn settings ⟨s, b, .hears (some m)⟩) := by
    have hreceive : Encounter.turn settings ⟨s, b, .hears (some m)⟩ =
        s.negotiate b (next b) (some m) := h.receive b (some m)
    rw [hreceive]
    exact negotiated s b (next b) m
  generalize ht : Encounter.turn settings ⟨s, b, .hears (some m)⟩ = t at hturn
  cases hturn with
  | skipped hskipped =>
      exact .skipped (by simp [Encounter.heeded?, hskipped]) ⟨by rw [ht]; rfl, by rw [ht]; rfl⟩
        (by rw [ht]; rfl)
  | refused fault hskipped hgreets hdeclared hgrounds =>
      refine .refused (some m) fault (hheeded hskipped) (fun m' hm' hgood => ?_) hgrounds ht
      cases hm'
      obtain hsome | ⟨name, hname⟩ := h.asks m hgood
      · rw [hdeclared] at hsome
        cases hsome
      · rw [hgreets name] at hname
        cases hname
  | taken c hskipped hm hc =>
      by_cases hgood : good m
      · exact .taken m c rfl (hheeded hskipped) hgood hm ht
      · obtain ⟨fault, hgrounds, hfault⟩ := h.refuses b m c hm hc hgood
        refine .refused (some m) fault (hheeded hskipped) (fun m' hm' => ?_) hgrounds
          (ht.trans hfault)
        cases hm'
        exact hgood

/-- **Whatever comes to a session that waits is skipped, is what it waits for, or ends it.** -/
theorem Waits.waited (h : Waits settings deadline x.session good next) :
    Waited settings deadline x good next := by
  obtain ⟨s, b, stimulus⟩ := x
  cases stimulus with
  | hears m =>
      cases m with
      | some m => exact h.hears_some b m
      | none => exact .refused none _ rfl (fun _ hm => by cases hm) (.ended rfl) (h.receive b none)
  | ticks =>
      have htick : Encounter.turn settings ⟨s, b, .ticks⟩ = _ := h.tick b
      by_cases hdue : deadline ≤ b.now
      · rw [if_pos hdue] at htick
        exact .refused none _ (if_pos hdue) (fun _ hm => by cases hm) (.late h.phase rfl hdue) htick
      · rw [if_neg hdue] at htick
        exact .skipped (if_neg hdue) ⟨by rw [htick]; rfl, by rw [htick]; rfl⟩ (by rw [htick]; rfl)
  | hands =>
      have hhands : Encounter.turn settings ⟨s, b, .hands⟩ = s.idle b := h.deliver b
      exact .skipped rfl ⟨by rw [hhands]; rfl, by rw [hhands]; rfl⟩ (by rw [hhands]; rfl)

/-- A new session waits for a good handshake. -/
theorem waits_greeting (settings : SessionSettings) (name : String) (deadline : Nat) :
    Waits settings deadline ⟨name, .greeting deadline⟩ (fun m => m.greets name = true)
      fun b => Session.greet ⟨name, .greeting deadline⟩ b deadline where
  phase := .inl rfl
  receive _ _ := rfl
  tick _ := rfl
  deliver _ := rfl
  refuses b _ _ hm hc hbad := greet_of_not_greets b rfl hm hc (Bool.eq_false_iff.mpr hbad)
  asks _ hgood := .inr ⟨name, hgood⟩

/-- Behind the handshake it waits for a declaration that compiles. -/
theorem waits_declaring (settings : SessionSettings) (name : String) (deadline : Nat) :
    Waits settings deadline ⟨name, .declaring deadline⟩ (fun m => m.declared?.isSome)
      (Session.declare ⟨name, .declaring deadline⟩) where
  phase := .inr rfl
  receive _ _ := rfl
  tick _ := rfl
  deliver _ := rfl
  refuses b _ _ hm hc hbad :=
    declare_of_not_declared b rfl hm hc (Option.not_isSome_iff_eq_none.mp hbad)
  asks _ hgood := .inl hgood

/-- What a session waits for it takes. -/
theorem Waits.taken (h : Waits settings deadline x.session good next) {c : Control}
    (hx : x.stimulus = .hears (some m)) (hm : m.decode = .ok (.control c)) (hgood : good m) :
    x.turn settings = next x.broker c := by
  have hheeded : x.heeded? deadline = some (some m) := by
    simp [Encounter.heeded?, hx, Message.isSkipped, hm]
  cases h.waited with
  | skipped hnone =>
      rw [hheeded] at hnone
      cases hnone
  | taken m' c' hx' _ _ hm' hturn =>
      rw [hx] at hx'
      cases hx'
      rw [hm] at hm'
      cases hm'
      exact hturn
  | refused o _ hsome hbad =>
      rw [hheeded] at hsome
      cases hsome
      exact absurd hgood (hbad m rfl)

theorem turn_of_greets (hs : x.session = ⟨name, .greeting deadline⟩)
    (hx : x.stimulus = .hears (some m)) (hgreets : m.greets name = true) :
    x.turn settings = ⟨⟨name, .declaring deadline⟩, x.broker, m.answers name⟩ := by
  have hcontrol : ∃ c, m.decode = .ok (.control c) := by
    unfold Message.greets at hgreets
    split at hgreets
    · next hm => exact ⟨_, hm⟩
    · cases hgreets
  obtain ⟨c, hm⟩ := hcontrol
  have hwaits := waits_greeting settings name deadline
  rw [← hs] at hwaits
  have hgreets' : m.greets x.session.name = true := by rwa [hs]
  rw [hwaits.taken hx hm hgreets, greet_of_greets x.session x.broker deadline hm hgreets', hs]

theorem turn_of_declared (hs : x.session = ⟨name, .declaring deadline⟩)
    (hx : x.stimulus = .hears (some m)) {is : List Interest} (hdeclared : m.declared? = some is) :
    x.turn settings = x.session.enrol x.broker is := by
  have hcontrol : ∃ c, m.decode = .ok (.control c) := by
    unfold Message.declared? at hdeclared
    split at hdeclared
    · next hm => exact ⟨_, hm⟩
    · cases hdeclared
  obtain ⟨c, hm⟩ := hcontrol
  have hwaits := waits_declaring settings name deadline
  rw [← hs] at hwaits
  have hsome : m.declared?.isSome := by rw [hdeclared]; rfl
  rw [hwaits.taken hx hm hsome, declare_of_declared x.session x.broker hm hdeclared]

end Intercept
