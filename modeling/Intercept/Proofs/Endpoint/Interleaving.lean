import Intercept.Endpoint.Session
import Intercept.Proofs.Broker.Answer
import Intercept.Proofs.Broker.Outbound
import Intercept.Proofs.Broker.Refusal
import Intercept.Proofs.Broker.Sequel

/-!
# Intercept.Proofs.Endpoint.Interleaving

Two sessions of one name, where looking whether a session is current and acting
on its answer are two turns at the lock.

```
Interleaved settings J b w    a run in which the answers w were let through and not acted on yet
b.Names ext r n               the answer r of ext is for what session n of that name is asked
b.Spares b' ext n             what session n of that name is asked in b, it is asked in b'
```

1. `Session.takeFrame` looks and acts in one turn; that is one of the
   interleavings (`Interleaved.takeFrame`), and a safe one.
2. In between, the name may be registered anew.  An answer tells whom it comes
   from by name only, and what it is for by packet and interest id.  So it is
   taken for an answer of the successor exactly if the successor is asked for
   an interest of that id about that packet (`spares_iff`).
3. An answer to what its session was sent is none of these, unless the
   successor uses the interest id for something else: a chain that was at a
   session does not come back to the same interest of its successor.
-/

namespace Intercept

/-- An answer with which its session was let through. -/
structure Admitted where
  ext : String
  session : Nat
  response : Response

namespace Broker

variable {settings : BrokerSettings} {J : List Note} {b b' : Broker} {w : List Admitted}
  {d : Admitted} {ext : String} {r : Response} {n : Nat}

/-- The runs of a broker in which sessions are let through first and their answers acted on later,
each with the answers in between. -/
inductive Interleaved (settings : BrokerSettings) : List Note → Broker → List Admitted → Prop where
  | new : Interleaved settings [] (.new settings) []
  | step {J : List Note} {b : Broker} {w : List Admitted} (e : Event) :
      Interleaved settings J b w →
      Interleaved settings (J ++ .happened e :: b.notes e) (b.step e) w
  | reordered {J : List Note} {b : Broker} {w : List Admitted} {chains : List ActiveChain} :
      Interleaved settings J b w → chains.Perm b.chains →
      Interleaved settings J { b with chains } w
  /-- A session that is current is let through with an answer. -/
  | admitted {J : List Note} {b : Broker} {w : List Admitted} (d : Admitted) :
      Interleaved settings J b w → b.registry.isCurrent d.ext d.session = true →
      Interleaved settings J b (d :: w)
  /-- An answer is acted on, whatever has become of its session. -/
  | acted {J : List Note} {b : Broker} {w w' : List Admitted} {d : Admitted} :
      Interleaved settings J b (w ++ d :: w') →
      Interleaved settings
        (J ++ .happened (.respond d.ext d.response) :: b.notes (.respond d.ext d.response))
        (b.step (.respond d.ext d.response)) (w ++ w')

theorem Interleaved.run (h : Interleaved settings J b w) : Run settings J b := by
  induction h with
  | new => exact .new
  | step e _ ih => exact ih.step e
  | reordered _ hp ih => exact ih.reordered hp
  | admitted _ _ _ ih => exact ih
  | acted _ ih => exact ih.step _

/-- Any events may follow. -/
theorem Interleaved.foldl (h : Interleaved settings J b w) (es : List Event) :
    Interleaved settings (J ++ b.journal es) (es.foldl Broker.step b) w := by
  induction es generalizing J b with
  | nil =>
      rw [journal, List.append_nil]
      exact h
  | cons e es ih =>
      have hrest := ih (h.step e)
      rw [List.append_assoc] at hrest
      exact hrest

/-- To take a frame in one turn is to act on its answer at once. -/
theorem Interleaved.takeFrame (h : Interleaved settings J b w) (s : Session) (number : Nat)
    (f : Frame) : ∃ N, Interleaved settings (J ++ N) (s.takeFrame b number f).2 w := by
  have hsame : ∃ N, Interleaved settings (J ++ N) b w := ⟨[], by rwa [List.append_nil]⟩
  unfold Session.takeFrame
  cases hcurrent : b.registry.isCurrent s.name number with
  | false => exact hsame
  | true =>
      rw [if_neg (by decide)]
      split
      · exact ⟨_, h.step (.inject f.packet f.direction f.packetFlags)⟩
      · exact hsame
      · cases Response.ofFrame f with
        | error fault => exact hsame
        | ok r => exact ⟨_, (h.admitted ⟨s.name, number, r⟩ hcurrent).acted (w := [])⟩

/-! ## predecessors -/

/-- The session was current, and whoever has its name now is this session, or another one that has
registered since. -/
def Preceded (settings : BrokerSettings) (J : List Note) (b : Broker) (ext : String)
    (session : Nat) : Prop :=
  ∃ p q b₀, J = p ++ q ∧ Run settings p b₀ ∧ b₀.registry.isCurrent ext session = true ∧
    session ≤ b.registry.lastSession ∧
    ∀ g, b.registry.get? ext = some g → g.session = session ∨
      session < g.session ∧ ∃ is capacity, .happened (.register ext is capacity) ∈ q

theorem preceded_of_isCurrent (h : Run settings J b)
    (hcurrent : b.registry.isCurrent ext n = true) : Preceded settings J b ext n := by
  have hbounded : b.registry.Bounded := h.registry_induct Registry.bounded_empty
    (fun _ ext is hr => hr.register ext is) fun _ ext hr => hr.remove ext
  obtain ⟨g, hg, rfl⟩ := (Registry.isCurrent_iff _ _ _).mp hcurrent
  refine ⟨J, [], b, by rw [List.append_nil], h, hcurrent,
    hbounded g (List.mem_of_find?_eq_some hg), fun g' hg' => .inl ?_⟩
  rw [hg] at hg'
  cases hg'
  rfl

theorem Preceded.step (h : Preceded settings J b ext n) (e : Event) :
    Preceded settings (J ++ .happened e :: b.notes e) (b.step e) ext n := by
  obtain ⟨p, q, b₀, rfl, hrun, hcurrent, hle, hnow⟩ := h
  have hold : ∀ g, b.registry.get? ext = some g → g.session = n ∨ n < g.session ∧
      ∃ is capacity, .happened (.register ext is capacity) ∈ q ++ .happened e :: b.notes e := by
    intro g hg
    refine (hnow g hg).imp_right fun ⟨hlt, is, capacity, hmem⟩ => ⟨hlt, is, capacity, ?_⟩
    exact List.mem_append_left _ hmem
  refine ⟨p, _, b₀, List.append_assoc _ _ _, hrun, hcurrent, ?_⟩
  obtain hsame | ⟨name, is, capacity, rfl, hreg⟩ | ⟨name, hreg⟩ := registry_step b e
  · rw [hsame]
    exact ⟨hle, hold⟩
  · rw [hreg, Registry.lastSession_register]
    refine ⟨Nat.le_succ_of_le hle, fun g hg => ?_⟩
    by_cases hext : ext = name
    · subst hext
      rw [Registry.get?_register_self] at hg
      cases hg
      exact .inr ⟨Nat.lt_succ_of_le hle, is, capacity, List.mem_append_right q List.mem_cons_self⟩
    · rw [Registry.get?_register_of_ne _ is hext] at hg
      exact hold g hg
  · rw [hreg]
    refine ⟨hle, fun g hg => ?_⟩
    by_cases hext : ext = name
    · rw [hext, Registry.get?_remove_self] at hg
      cases hg
    · rw [Registry.get?_remove_of_ne _ hext] at hg
      exact hold g hg

/-- Whoever has the name of an answer's session now, it is that session or a successor. -/
theorem Interleaved.preceded (h : Interleaved settings J b w) :
    ∀ d ∈ w, Preceded settings J b d.ext d.session := by
  induction h with
  | new =>
      intro d hd
      cases hd
  | step e _ ih => exact fun d hd => (ih d hd).step e
  | reordered _ _ ih => exact ih
  | admitted d h hcurrent ih =>
      intro d' hd'
      cases List.mem_cons.mp hd' with
      | inl he =>
          subst he
          exact preceded_of_isCurrent h.run hcurrent
      | inr hold => exact ih d' hold
  | acted _ ih =>
      intro d' hd'
      refine (ih d' ?_).step _
      cases List.mem_append.mp hd' with
      | inl hfirst => exact List.mem_append_left _ hfirst
      | inr hrest => exact List.mem_append_right _ (List.mem_cons_of_mem _ hrest)

/-! ## whom an answer is taken for -/

/-- The answer is for what this session of the extension is asked, be it a chain that it holds or
its copy. -/
def Names (b : Broker) (ext : String) (r : Response) (session : Nat) : Prop :=
  (∃ a holder, b.chain? r.packetId = some a ∧ a.chain.holder = some holder ∧ holder.ext = ext ∧
    holder.session = session ∧ holder.interest.id = r.interestId) ∨
  (b.chain? r.packetId = none ∧ ∃ c, b.correlation? r.packetId = some c ∧ c.ext = ext ∧
    c.session = session ∧ c.interestId = r.interestId)

/-- The session still has every chain that it held, just as it was, and every copy. -/
structure Spares (b b' : Broker) (ext : String) (session : Nat) : Prop where
  chains : ∀ a ∈ b.chains, a.chain.isHeldBy ext session = true → a ∈ b'.chains
  copies : ∀ c ∈ b.correlations, c.ext = ext → c.session = session → c ∈ b'.correlations

theorem Kept.spares (h : b.Kept b') (ext : String) (n : Nat) : b.Spares b' ext n := by
  have hchains : b'.chains = b.chains := congrArg (·.chains) h
  have hcopies : b'.correlations = b.correlations := congrArg (·.correlations) h
  constructor
  · intro a ha _
    rwa [hchains]
  · intro c hc _ _
    rwa [hcopies]

/-- A chain that is handed on remembers somebody new. -/
theorem exists_new_visited_advance {V : List (String × InterestKey)} {c : Chain}
    (hV : V ⊆ c.visited) (reg : Registry) (mode : DecodeMode) (x : Directive) :
    V ⊆ (c.advance reg mode x).2.visited ∧
      ∀ client, (c.advance reg mode x).1 = .dispatch client →
        ∃ k ∈ (c.advance reg mode x).2.visited, k ∉ V := by
  obtain ⟨client, _, hask, h⟩ | h | h := Chain.advance_cases c reg mode x
  · have hnew := ((Chain.mayAsk_iff _ _).mp hask).2
    rw [Chain.taking_visited] at hnew
    rw [h]
    refine ⟨fun k hk => ?_, fun _ _ => ⟨client.key, ?_, fun hmem => hnew (hV hmem)⟩⟩
    · simp [Chain.visit, hV hk]
    · simp [Chain.visit]
  · rw [h]
    exact ⟨by simpa [Chain.leave] using hV, fun _ he => by cases he⟩
  · rw [h]
    exact ⟨by simpa [Chain.leave] using hV, fun _ he => by cases he⟩

/-- No chain is as it was before a directive was applied to it. -/
theorem not_mem_chains_apply {id : UInt64} {a : ActiveChain} (ha : b.chain? id = some a)
    (x : Directive) : a ∉ (b.apply id x).chains := by
  have hstart := exists_new_visited_advance (List.Subset.refl a.chain.visited) b.registry
    b.settings.decodeMode x
  intro hmem
  unfold apply at hmem
  rw [ha] at hmem
  have hrule := drive_rule (b := b)
    (a := { a with chain := (a.chain.advance b.registry b.settings.decodeMode x).2 })
    (P := fun y step => a.chain.visited ⊆ y.chain.visited ∧
      ∀ client, step = .dispatch client → ∃ k ∈ y.chain.visited, k ∉ a.chain.visited)
    (fun y _ hy => exists_new_visited_advance hy.1 b.registry b.settings.decodeMode _) hstart
  obtain ⟨y, client, ⟨_, hnew⟩, hid, hset⟩ | hdrop := hrule
  · rw [hset] at hmem
    cases mem_chains_setChain hmem with
    | inl he =>
        obtain ⟨k, hk, hnot⟩ := hnew client rfl
        exact hnot (by rw [he]; exact hk)
    | inr hold => exact hold.2 (by rw [hid]; exact (Chain.advance_id _ _ _ _).symm)
  · rw [hdrop] at hmem
    exact ((mem_chains_dropChain _ _ _).mp hmem).2 (Chain.advance_id _ _ _ _).symm

/-- What an answer names, it takes. -/
theorem Names.not_spares (h : b.Names ext r n) : ¬b.Spares (b.respond ext r).2 ext n := by
  intro hspares
  obtain ⟨a, holder, ha, hh, rfl, rfl, hid⟩ | ⟨hc, c, ho, rfl, rfl, hid⟩ := h
  · have hstays := hspares.chains a (chain?_eq_some ha).1 (by simp [Chain.isHeldBy, hh])
    have hrespond : (b.respond holder.ext r).2 =
        (b.count .directives [("op", r.directive.name)]).apply r.packetId r.directive := by
      unfold respond
      simp [ha, hh, hid]
    rw [hrespond] at hstays
    exact not_mem_chains_apply (b := b.count .directives [("op", r.directive.name)]) ha _ hstays
  · have hstays := hspares.copies c (List.mem_of_find?_eq_some ho) rfl rfl
    rw [respond_of_owner hc ho hid, correlations_redeem] at hstays
    simp [dropCorrelation] at hstays

/-- Only sessions that are current are asked anything. -/
theorem Names.isCurrent (hb : b.Tended) (h : b.Names ext r n) :
    b.registry.isCurrent ext n = true := by
  obtain ⟨a, holder, ha, hh, rfl, rfl, _⟩ | ⟨_, c, ho, rfl, rfl, _⟩ := h
  · exact (hb.serves ha hh).isCurrent
  · exact hb.owed c (List.mem_of_find?_eq_some ho)

/-- An answer that names nothing is refused. -/
theorem kept_of_not_names (hb : b.Tended) (h : ∀ n, ¬b.Names ext r n) :
    b.Kept (b.respond ext r).2 := by
  cases hc : b.chain? r.packetId with
  | some a =>
      obtain ⟨holder, hh, _⟩ := hb.held a (chain?_eq_some hc).1
      have hne : ¬(holder.ext = ext ∧ holder.interest.id = r.interestId) := fun ⟨hext, hid⟩ =>
        h holder.session (.inl ⟨a, holder, hc, hh, hext, rfl, hid⟩)
      obtain ⟨⟨reason, hrefuses⟩, _⟩ := respond_not_holder hc hh hne
      exact hrefuses.kept
  | none =>
      cases ho : b.correlation? r.packetId with
      | some c =>
          exact (respond_not_owner hc ho fun ⟨hext, hid⟩ =>
            h c.session (.inr ⟨hc, c, ho, hext, rfl, hid⟩)).kept
      | none => exact (respond_unknown ext hc ho).1.kept

/-- **An answer spares the current session unless it names what that session is asked.** -/
theorem spares_iff (hb : b.Tended) (hn : b.registry.isCurrent ext n = true) :
    b.Spares (b.respond ext r).2 ext n ↔ ¬b.Names ext r n := by
  refine ⟨fun hspares hnames => hnames.not_spares hspares, fun hno => ?_⟩
  refine (kept_of_not_names hb fun m hm => hno ?_).spares ext n
  obtain ⟨g, hg, rfl⟩ := (Registry.isCurrent_iff _ _ _).mp hn
  obtain ⟨g', hg', rfl⟩ := (Registry.isCurrent_iff _ _ _).mp (hm.isCurrent hb)
  rw [hg] at hg'
  cases hg'
  exact hm

/-! ## answers to what a replaced session was sent -/

/-- A chain that a session has been handed is not with its successor for the same interest. -/
theorem Run.not_names_of_handed (h : Run settings J b) {c : Chain} {client : Client} {sent : Bool}
    (hmem : .handed c client sent ∈ J)
    (hreplaced : b.registry.isCurrent client.ext client.session = false)
    (honce : (opened J).count c.id ≤ 1)
    (hsame : ∀ g, b.registry.get? client.ext = some g →
      ∀ i ∈ g.interests, i.id = client.interest.id → i.key = client.interest.key) (x : Directive) :
    ¬b.Names client.ext ⟨c.id, client.interest.id, x⟩ n := by
  rintro (⟨a, holder, ha, hh, hext, -, hid⟩ | ⟨-, o, ho, -, -, -⟩)
  · obtain ⟨_, hlast, hholder⟩ := h.holder_of_chain ha
    rw [hh] at hholder
    cases hholder
    obtain ⟨g, hg, hgs, hgi⟩ := h.reachable.tended.serves ha hh
    have hkey : client.key = holder.key := by
      rw [Client.key, Client.key, hext, hsame g (by rw [← hext]; exact hg) _ hgi hid]
    obtain ⟨p, q, rfl, hq⟩ := exists_append_of_getLast?_thread hlast
    cases List.mem_append.mp hmem with
    | inl hbefore =>
        -- the chain was handed to both, one after the other
        obtain ⟨p₁, p₂, rfl⟩ := List.append_of_mem hbefore
        have hJ : (p₁ ++ .handed c client sent :: p₂) ++ .handed a.chain holder true :: q =
            p₁ ++ .handed c client sent :: (p₂ ++ .handed a.chain holder true :: q) := by simp
        exact h.key_ne_of_later hJ (h.not_starts_of_count hJ honce)
          (List.mem_append_right p₂ List.mem_cons_self) (chain?_eq_some ha).2 hkey
    | inr hrest =>
        cases List.mem_cons.mp hrest with
        | inl he =>
            cases he
            rw [(Registry.isCurrent_iff _ _ _).mpr ⟨g, hg, hgs⟩] at hreplaced
            cases hreplaced
        | inr hlater =>
            have hconcerns := hq _ hlater
            simp [Note.concerns, Note.chain?] at hconcerns
  · obtain ⟨_, frame, hcopied, hframe, _⟩ := h.known o (List.mem_of_find?_eq_some ho)
    exact h.not_copied_of_count hmem honce hcopied (hframe.trans (correlation?_eq_some ho))

/-- The id of a copy that a session got names nothing that its successor is asked. -/
theorem Run.not_names_of_copied (h : Run settings J b) {client : Client} {frame : Frame}
    {sent : Bool} (hmem : .copied client frame sent ∈ J)
    (hreplaced : b.registry.isCurrent client.ext client.session = false)
    (honce : (opened J).count frame.packetId ≤ 1) (hid : r.packetId = frame.packetId) :
    ¬b.Names client.ext r n := by
  rintro (⟨a, holder, ha, -, -, -, -⟩ | ⟨-, o, ho, -, -, -⟩)
  · obtain ⟨_, hlast, _⟩ := h.holder_of_chain ha
    have haid : frame.packetId = a.chain.id := hid.symm.trans (chain?_eq_some ha).2.symm
    rw [haid] at honce
    exact h.not_copied_of_count (mem_thread (List.mem_of_getLast? hlast)).1 honce hmem haid
  · have howed := h.reachable.tended.owed o (List.mem_of_find?_eq_some ho)
    obtain ⟨client', frame', hcopied, hframe, hext, hsession, _⟩ :=
      h.known o (List.mem_of_find?_eq_some ho)
    have hoid : frame'.packetId = frame.packetId :=
      hframe.trans ((correlation?_eq_some ho).trans hid)
    cases eq_of_count_opened honce hmem hcopied rfl (congrArg some hoid)
    rw [← hext, ← hsession, hreplaced] at howed
    cases howed

/-- **Whom an answer is taken for that was let through before its session was replaced.**  A session
that is looked at and acted for in one turn is refused.  In two turns, an answer spares whoever has
the name now, a session that has registered in between, unless it names what that session is asked,
and then it takes that.  An answer that names nothing is rejected; so is an answer to what the
replaced session was sent itself, a chain or a copy, if ids are given out once and the successor
uses the interest id of the chain for that very interest or not at all. -/
theorem Interleaved.successor_spared (h : Interleaved settings J b w) (hd : d ∈ w)
    (hreplaced : b.registry.isCurrent d.ext d.session = false) :
    (∀ s : Session, s.name = d.ext → ∀ f, (s.takeFrame b d.session f).2 = b) ∧
    (∀ n, b.registry.isCurrent d.ext n = true →
      (b.Spares (b.respond d.ext d.response).2 d.ext n ↔ ¬b.Names d.ext d.response n) ∧
      d.session < n ∧ ∃ p q b₀ is capacity, J = p ++ q ∧ Run settings p b₀ ∧
        b₀.registry.isCurrent d.ext d.session = true ∧
        .happened (.register d.ext is capacity) ∈ q) ∧
    ((∀ n, ¬b.Names d.ext d.response n) → b.Kept (b.respond d.ext d.response).2) ∧
    (∀ c client x, .handed c client true ∈ J → client.ext = d.ext → client.session = d.session →
      d.response = ⟨c.id, client.interest.id, x⟩ → (opened J).count c.id ≤ 1 →
      (∀ g, b.registry.get? d.ext = some g →
        ∀ i ∈ g.interests, i.id = client.interest.id → i.key = client.interest.key) →
      b.Kept (b.respond d.ext d.response).2) ∧
    (∀ client frame, .copied client frame true ∈ J → client.ext = d.ext →
      client.session = d.session → d.response.packetId = frame.packetId →
      (opened J).count frame.packetId ≤ 1 → b.Kept (b.respond d.ext d.response).2) := by
  have hb : b.Tended := h.run.reachable.tended
  refine ⟨?_, ?_, kept_of_not_names hb, ?_, ?_⟩
  · intro s hs f
    unfold Session.takeFrame
    rw [hs, hreplaced]
    rfl
  · intro n hn
    obtain ⟨p, q, b₀, hJ, hrun, hcurrent, _, hnow⟩ := h.preceded d hd
    obtain ⟨g, hg, rfl⟩ := (Registry.isCurrent_iff _ _ _).mp hn
    refine ⟨spares_iff hb hn, ?_⟩
    cases hnow g hg with
    | inl hsame =>
        rw [hsame, hreplaced] at hn
        cases hn
    | inr hlater =>
        obtain ⟨hlt, is, capacity, hmem⟩ := hlater
        exact ⟨hlt, p, q, b₀, is, capacity, hJ, hrun, hcurrent, hmem⟩
  · intro c client x hmem hext hsession hresponse honce hsame
    rw [← hext, ← hsession] at hreplaced
    rw [← hext] at hsame
    refine kept_of_not_names hb fun n => ?_
    rw [hresponse, ← hext]
    exact h.run.not_names_of_handed hmem hreplaced honce hsame x
  · intro client frame hmem hext hsession hid honce
    rw [← hext, ← hsession] at hreplaced
    refine kept_of_not_names hb fun n => ?_
    rw [← hext]
    exact h.run.not_names_of_copied hmem hreplaced honce hid

/-- One extension has a copy of a packet, and is asked about the packet for one interest after the
other. -/
def askedTwice : Broker :=
  let text : Interest := { id := 1, kind := .net .genericText }
  [Event.register "x" [text, { text with id := 2, priority := 1 },
      { text with id := 3, blocking := .sendAndForget }] 4,
    .submit [2, 0, 0, 0, 0] .clientToServer 0, .respond "x" ⟨2, 2, .pass⟩].foldl
    Broker.step (.new {})

/-- The interests of its next registration: the one that it is asked for has another priority. -/
def interestsAnew : List Interest :=
  [{ id := 1, kind := .net .genericText, priority := 5 },
    { id := 2, kind := .net .genericText, priority := 1 }]

/-- It registers anew. -/
def askedAnew : Broker := askedTwice.step (.register "x" interestsAnew 4)

/-- In the meantime it has been let through with an answer to each question and one for the copy. -/
theorem interleaved_askedAnew : ∃ J c client observer frame,
    Interleaved {} J askedAnew
      [⟨"x", 1, ⟨2, 1, .cancel⟩⟩, ⟨"x", 1, ⟨2, 2, .cancel⟩⟩, ⟨"x", 1, ⟨1, 3, .pass⟩⟩] ∧
    .handed c client true ∈ J ∧ c.id = 2 ∧ client.ext = "x" ∧ client.session = 1 ∧
      client.interest = { id := 2, kind := .net .genericText, priority := 1 } ∧
    .copied observer frame true ∈ J ∧ observer.ext = "x" ∧ observer.session = 1 ∧
      frame.packetId = 1 := by
  let text : Interest := { id := 1, kind := .net .genericText }
  let c₀ : Chain := {
    id := 2, bytes := [2, 0, 0, 0, 0], direction := .clientToServer, flags := 0
    packet := ⟨.genericText, .table { rows := [], index := [], trailingNewline := false }⟩ }
  let client : Client := ⟨"x", { text with id := 2, priority := 1 }, 2, 1⟩
  let observer : Client := ⟨"x", { text with id := 3, blocking := .sendAndForget }, 3, 1⟩
  let frame : Frame := ⟨.deliver, .clientToServer, 1, 3, 0, 0, [2, 0, 0, 0, 0]⟩
  have hasked : Interleaved {} _ askedTwice [] := Interleaved.new.foldl _
  have hcurrent : askedTwice.registry.isCurrent "x" 1 = true := by cbv
  have hadmitted := ((hasked.admitted ⟨"x", 1, ⟨1, 3, .pass⟩⟩ hcurrent).admitted
    ⟨"x", 1, ⟨2, 2, .cancel⟩⟩ hcurrent).admitted ⟨"x", 1, ⟨2, 1, .cancel⟩⟩ hcurrent
  refine ⟨_, c₀.visit client, client, observer, frame,
    hadmitted.step (.register "x" interestsAnew 4), ?_, rfl, rfl, rfl, rfl, ?_, rfl, rfl, rfl⟩
  · exact List.mem_append_left _ (List.mem_of_getElem? (i := 4) (by cbv))
  · exact List.mem_append_left _ (List.mem_of_getElem? (i := 2) (by cbv))

/-- The answer to the second question names what the new session is asked. -/
theorem names_askedAnew : askedAnew.Names "x" ⟨2, 1, .cancel⟩ 2 := by
  have hholder : (askedAnew.chain? 2).bind (·.chain.holder) =
      some ⟨"x", { id := 1, kind := .net .genericText, priority := 5 }, 4, 2⟩ := by cbv
  obtain ⟨a, ha, hh⟩ := Option.bind_eq_some_iff.mp hholder
  exact .inl ⟨a, _, ha, hh, rfl, rfl, rfl⟩

/-- Three answers of the first session come too late.  The one for its copy and the one to the first
question are rejected; the one to the second question is taken for the second session's. -/
theorem successor_spared_but_once : ∃ J, Interleaved {} J askedAnew
      [⟨"x", 1, ⟨2, 1, .cancel⟩⟩, ⟨"x", 1, ⟨2, 2, .cancel⟩⟩, ⟨"x", 1, ⟨1, 3, .pass⟩⟩] ∧
    askedAnew.registry.isCurrent "x" 1 = false ∧
    askedAnew.registry.isCurrent "x" 2 = true ∧
    ¬askedAnew.Spares (askedAnew.respond "x" ⟨2, 1, .cancel⟩).2 "x" 2 ∧
    askedAnew.Kept (askedAnew.respond "x" ⟨2, 2, .cancel⟩).2 ∧
    askedAnew.Kept (askedAnew.respond "x" ⟨1, 3, .pass⟩).2 := by
  obtain ⟨J, c, client, observer, frame, h, hhanded, hid, hext, hsession, hinterest, hcopied, hoext,
    hosession, hframe⟩ := interleaved_askedAnew
  have hreplaced : askedAnew.registry.isCurrent "x" 1 = false := by cbv
  have hcurrent : askedAnew.registry.isCurrent "x" 2 = true := by cbv
  have hdrawn : askedAnew.nextId = 3 := by cbv
  have honce : ∀ id, (opened J).count id ≤ 1 := fun id =>
    List.nodup_iff_count_le_one.mp (h.run.nodup_opened (by rw [hdrawn]; decide)) id
  have hsame : ∀ g, askedAnew.registry.get? "x" = some g →
      ∀ i ∈ g.interests, i.id = client.interest.id → i.key = client.interest.key := by
    intro g hg i hi hiid
    have hregistered : askedAnew.registry.get? "x" = some ⟨"x", 2, interestsAnew⟩ := by cbv
    rw [hregistered] at hg
    cases hg
    rw [hinterest] at hiid ⊢
    rw [interestsAnew, List.mem_cons, List.mem_singleton] at hi
    obtain rfl | rfl := hi
    · cases hiid
    · rfl
  obtain ⟨_, hsuccessor, _⟩ :=
    h.successor_spared (d := ⟨"x", 1, ⟨2, 1, .cancel⟩⟩) (by simp) hreplaced
  obtain ⟨_, _, _, hown, _⟩ :=
    h.successor_spared (d := ⟨"x", 1, ⟨2, 2, .cancel⟩⟩) (by simp) hreplaced
  obtain ⟨_, _, _, _, hcopy⟩ :=
    h.successor_spared (d := ⟨"x", 1, ⟨1, 3, .pass⟩⟩) (by simp) hreplaced
  refine ⟨J, h, hreplaced, hcurrent, ?_, ?_, ?_⟩
  · exact fun hspares => (hsuccessor 2 hcurrent).1.mp hspares names_askedAnew
  · refine hown c client .cancel hhanded hext hsession ?_ (honce _) hsame
    rw [hid, hinterest]
  · exact hcopy observer frame hcopied hoext hosession hframe.symm (honce _)

/-- Not every answer of a replaced session spares its successor. -/
theorem answers_for_successor : ¬∀ settings J b w, Interleaved settings J b w → ∀ d ∈ w, ∀ n,
    d.session ≠ n → b.registry.isCurrent d.ext n = true →
      b.Spares (b.respond d.ext d.response).2 d.ext n := by
  intro h
  obtain ⟨J, _, _, _, _, hrun, _⟩ := interleaved_askedAnew
  exact names_askedAnew.not_spares
    (h _ _ _ _ hrun ⟨"x", 1, ⟨2, 1, .cancel⟩⟩ (by simp) 2 (by decide) (by cbv))

end Broker

end Intercept
