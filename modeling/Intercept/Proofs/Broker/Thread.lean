import Mathlib.Data.List.Chain
import Mathlib.Data.List.Induction
import Intercept.Proofs.Broker.Visits

/-!
# Intercept.Proofs.Broker.Thread

The life of a chain as the journal tells it.

```
thread id J           the notes about the chain id since it started
Follows settings n m  m can be the next note about a chain after n

started → handed → directed → handed → … → directed → ended
                 ↘ dropped
```

`Run.threaded` says that every thread is such a path.  A chain is handed on
only by its start or by a directive, a directive is applied only where the
chain was handed to somebody, and what is handed on or ends is what the note
before has left.
-/

namespace Intercept

/-! ## threads -/

/-- Whether the note is about the chain with this id. -/
def Note.concerns (n : Note) (id : UInt64) : Bool := n.chain?.any (·.id = id)

/-- Whether a chain starts. -/
def Note.starts : Note → Bool
  | started _ => true
  | _ => false

/-- The thread of a chain after a note. A chain that starts anew under an id has a thread of its
own. -/
def Note.threaded (id : UInt64) (before : List Note) (n : Note) : List Note :=
  if n.concerns id then if n.starts then [n] else before ++ [n] else before

/-- The notes about the chain with this id since it started. -/
def thread (id : UInt64) (J : List Note) : List Note := J.foldl (Note.threaded id) []

@[simp] theorem thread_nil (id : UInt64) : thread id [] = [] := rfl

/-- A note is the last of the thread of its chain, and in no other. -/
@[simp] theorem thread_concat (id : UInt64) (J : List Note) (n : Note) :
    thread id (J ++ [n]) = n.threaded id (thread id J) := by
  simp only [thread, List.foldl_append, List.foldl_cons, List.foldl_nil]

/-- A note concerns the chain that it is about. -/
theorem concerns_iff (n : Note) (id : UInt64) :
    n.concerns id = true ↔ ∃ c, n.chain? = some c ∧ c.id = id := by
  simp [Note.concerns, Option.any_eq_true]

theorem concerns_eq_false_of_ne {n : Note} {c : Chain} {id : UInt64} (hc : n.chain? = some c)
    (h : c.id ≠ id) : n.concerns id = false := by
  simp [Note.concerns, hc, h]

/-- As long as the chain does not start anew, its notes are added one after another. -/
theorem thread_append (id : UInt64) (J : List Note) {N : List Note}
    (h : ∀ n ∈ N, n.concerns id = true → n.starts = false) :
    thread id (J ++ N) = thread id J ++ N.filter (·.concerns id) := by
  induction N generalizing J with
  | nil => simp
  | cons n ns ih =>
      have hrest := fun m hm => h m (List.mem_cons_of_mem n hm)
      rw [List.append_cons, ih _ hrest, thread_concat, Note.threaded]
      cases hn : n.concerns id with
      | false => simp [hn]
      | true => simp [hn, h n List.mem_cons_self hn]

/-- Notes about no chain are in no thread. -/
theorem thread_append_silent (id : UInt64) (J : List Note) {N : List Note}
    (h : ∀ n ∈ N, n.chain? = none) : thread id (J ++ N) = thread id J := by
  have hnone : ∀ n ∈ N, n.concerns id = false := fun n hn => by simp [Note.concerns, h n hn]
  rw [thread_append id J fun n hn hc => by simp [hnone n hn] at hc,
    List.filter_eq_nil_iff.mpr fun n hn => by simp [hnone n hn], List.append_nil]

/-- What is in a thread is in the journal, and about the chain. -/
theorem mem_thread {id : UInt64} {J : List Note} {n : Note} (h : n ∈ thread id J) :
    n ∈ J ∧ n.concerns id = true := by
  induction J using List.reverseRecOn with
  | nil => cases h
  | append_singleton J m ih =>
      rw [thread_concat, Note.threaded] at h
      cases hm : m.concerns id with
      | false =>
          rw [hm] at h
          exact ⟨List.mem_append_left _ (ih h).1, (ih h).2⟩
      | true =>
          rw [hm] at h
          have hmem : n ∈ thread id J ∨ n = m := by
            cases hs : m.starts with
            | false => simpa [hs] using h
            | true => exact .inr (by simpa [hs] using h)
          obtain hold | rfl := hmem
          · exact ⟨List.mem_append_left _ (ih hold).1, (ih hold).2⟩
          · exact ⟨List.mem_append_right _ List.mem_cons_self, hm⟩

/-- The last note of a thread is the last note about the chain. -/
theorem getLast?_thread (id : UInt64) (J : List Note) :
    (thread id J).getLast? = (J.filter (·.concerns id)).getLast? := by
  induction J using List.reverseRecOn with
  | nil => rfl
  | append_singleton J n ih =>
      rw [thread_concat, Note.threaded, List.filter_append]
      cases hn : n.concerns id with
      | false => simpa [hn] using ih
      | true =>
          cases hs : n.starts with
          | false => simp [hn]
          | true => simp [hn]

/-- Whom the chain is handed to. -/
def Note.visitor? : Note → Option Client
  | handed _ client _ => some client
  | happened _ | started _ | directed .. | ended .. | dropped _ | copied .. | redeemed ..
  | injected .. => none

/-- The visits of a chain are the hand-overs of its thread. -/
theorem visits_eq_thread (id : UInt64) (J : List Note) :
    visits id J = (thread id J).filterMap Note.visitor? := by
  induction J using List.reverseRecOn with
  | nil => rfl
  | append_singleton J n ih =>
      rw [visits_concat, thread_concat, ih]
      cases n with
      | happened | copied | redeemed | injected => rfl
      | started c | directed c | handed c | ended c | dropped c =>
          by_cases hid : c.id = id
          · simp [Note.visited, Note.threaded, Note.concerns, Note.chain?, Note.starts,
              Note.visitor?, hid]
          · simp [Note.visited, Note.threaded, Note.concerns, Note.chain?, hid]

/-! ## what can come next -/

namespace Note

/-- The chain behind a note. -/
def after? (mode : DecodeMode) : Note → Option Chain
  | directed c _ d => some (c.taking mode d)
  | started c | handed c .. | ended c _ | dropped c => some c
  | happened _ | copied .. | redeemed .. | injected .. => none

/-- Whether something happens to the chain at once behind the note. -/
def opens : Note → Bool
  | started _ | directed .. => true
  | _ => false

/-- Whether the chain may be handed to a client behind the note. -/
def goesOn : Note → Bool
  | started _ => true
  | directed _ _ d => d.goesOn
  | _ => false

/-- How a chain that ends behind the note does so: only `cancel` cancels. -/
def outcome (n : Note) (c : Chain) : Outcome :=
  match n with
  | directed _ _ .cancel => .cancelled c.outgoing
  | _ => .forward c.outgoing

/-- A chain keeps its id behind every note. -/
theorem after?_id {mode : DecodeMode} {n : Note} {c x : Chain} (hc : n.chain? = some c)
    (hx : n.after? mode = some x) : x.id = c.id := by
  cases n with
  | directed c' cause d =>
      cases hc
      cases hx
      exact Chain.taking_id _ _ _
  | started | handed | ended | dropped => cases hc; cases hx; rfl
  | happened | copied | redeemed | injected => cases hc

/-- After this note the chain is `c`, and this step happens to it. -/
def Sends (mode : DecodeMode) (n : Note) (c : Chain) (step : Step) : Prop :=
  n.opens = true ∧ ∃ x, n.after? mode = some x ∧
    match step with
    | .dispatch client => n.goesOn = true ∧ c = x.visit client
    | .finished => c = x.leave ∧ n.outcome c = .forward c.outgoing
    | .cancelled => c = x.leave ∧ n.outcome c = .cancelled c.outgoing

end Note

/-- A cause that fits what became of the hand-over: only who got the packet can answer or be
late. -/
def Cause.Fits (settings : BrokerSettings) (client : Client) (sent : Bool) (d : Directive) :
    Cause → Prop
  | answer ext interestId => sent = true ∧ client.ext = ext ∧ client.interest.id = interestId
  | timeout => sent = true ∧ d = settings.onTimeout.directive
  | disconnect => d = settings.onDisconnect.directive

/-- What can be the next note about a chain. -/
inductive Follows (settings : BrokerSettings) : Note → Note → Prop where
  | handed {n x client sent} : n.goesOn = true → n.after? settings.decodeMode = some x →
      Follows settings n (.handed (x.visit client) client sent)
  | directed {c client sent cause d} : c.holder = some client → cause.Fits settings client sent d →
      Follows settings (.handed c client sent) (.directed c cause d)
  | ended {n x} : n.opens = true → n.after? settings.decodeMode = some x →
      Follows settings n (.ended x.leave (n.outcome x.leave))
  | dropped {c client} : Follows settings (.handed c client true) (.dropped c)

/-- A path of notes from a start. -/
structure Legal (settings : BrokerSettings) (T : List Note) : Prop where
  starts : ∀ n ∈ T.head?, n.starts = true
  follows : T.IsChain (Follows settings)

theorem legal_nil (settings : BrokerSettings) : Legal settings [] :=
  ⟨by simp, List.IsChain.nil⟩

theorem legal_start (settings : BrokerSettings) (c : Chain) : Legal settings [.started c] :=
  ⟨by simp [Note.starts], List.isChain_singleton _⟩

/-- A path goes on with what can follow its last note. -/
theorem Legal.concat {settings : BrokerSettings} {T : List Note} {l n : Note}
    (h : Legal settings T) (hl : T.getLast? = some l) (hfollows : Follows settings l n) :
    Legal settings (T ++ [n]) := by
  constructor
  · intro m hm
    cases T with
    | nil => cases hl
    | cons k ks => exact h.starts m hm
  · refine List.isChain_append.mpr ⟨h.follows, List.isChain_singleton n, ?_⟩
    intro x hx y hy
    rw [hl] at hx
    cases hx
    cases hy
    exact hfollows

/-- Every note but the first follows another one. -/
theorem Legal.of_concat {settings : BrokerSettings} {c₀ : Chain} {T : List Note} {n : Note}
    (h : Legal settings (.started c₀ :: (T ++ [n]))) :
    ∃ k, (Note.started c₀ :: T).getLast? = some k ∧ Legal settings (.started c₀ :: T) ∧
      Follows settings k n := by
  obtain ⟨k, hk⟩ := Option.isSome_iff_exists.mp
    (List.getLast?_isSome.mpr (List.cons_ne_nil (Note.started c₀) T))
  have hchain : ((Note.started c₀ :: T) ++ [n]).IsChain (Follows settings) := h.follows
  obtain ⟨hT, _, hlast⟩ := List.isChain_append.mp hchain
  exact ⟨k, hk, ⟨h.starts, hT⟩, hlast k hk n rfl⟩

/-- Induction on a thread, from its start and by what can come next. -/
theorem Legal.induct {settings : BrokerSettings} {c₀ : Chain} {T : List Note} {l : Note}
    {P : List Note → Note → Prop} (h : Legal settings (.started c₀ :: T))
    (hl : (Note.started c₀ :: T).getLast? = some l) (hstart : P [] (.started c₀))
    (hnext : ∀ T k n, Legal settings (.started c₀ :: T) →
      (Note.started c₀ :: T).getLast? = some k → Follows settings k n → P T k → P (T ++ [n]) n) :
    P T l := by
  induction T using List.reverseRecOn generalizing l with
  | nil =>
      cases hl
      exact hstart
  | append_singleton T n ih =>
      rw [← List.cons_append, List.getLast?_concat] at hl
      cases hl
      obtain ⟨k, hk, hT, hfollows⟩ := h.of_concat
      exact hnext T k n hT hk hfollows (ih hT hk)

/-- A chain remembers everybody whom its thread has handed it to. -/
theorem Legal.visited_eq {settings : BrokerSettings} {c₀ : Chain} {T : List Note} {l : Note}
    (h : Legal settings (.started c₀ :: T)) (hunseen : c₀.visited = [])
    (hl : (Note.started c₀ :: T).getLast? = some l) :
    ∀ x, l.after? settings.decodeMode = some x →
      x.visited = (T.filterMap Note.visitor?).map Client.key := by
  refine h.induct (P := fun T l => ∀ x, l.after? settings.decodeMode = some x →
    x.visited = (T.filterMap Note.visitor?).map Client.key) hl ?_ fun T k n _ _ hfollows hk => ?_
  · intro x hx
    cases hx
    exact hunseen
  · intro x hx
    rw [List.filterMap_append]
    cases hfollows with
    | handed _ hy =>
        cases hx
        simp [Chain.visit, hk _ hy, Note.visitor?]
    | directed _ _ =>
        cases hx
        simp [hk _ rfl, Note.visitor?]
    | ended _ hy =>
        cases hx
        simp [Chain.leave, hk _ hy, Note.visitor?]
    | dropped =>
        cases hx
        simp [hk _ rfl, Note.visitor?]

/-- Nothing comes behind the end. -/
theorem Legal.getLast?_of_ended {settings : BrokerSettings} {T : List Note} {c : Chain}
    {outcome : Outcome} (h : Legal settings T) (hmem : .ended c outcome ∈ T) :
    T.getLast? = some (.ended c outcome) := by
  obtain ⟨before, after, rfl⟩ := List.append_of_mem hmem
  cases after with
  | nil => rw [List.getLast?_concat]
  | cons n after =>
      have htail := (List.isChain_append.mp h.follows).2.1
      cases List.isChain_cons_cons.mp htail |>.1 with
      | handed hgoes _ => cases hgoes
      | ended hopens _ => cases hopens

/-- The note starts a chain, or suits the last note about its chain. -/
def AdmitsNext (settings : BrokerSettings) (J : List Note) (n : Note) : Prop :=
  ∀ c, n.chain? = some c → n.starts = true ∨
    ∃ l, (thread c.id J).getLast? = some l ∧ Follows settings l n

/-- A chain may start behind anything. -/
theorem admitsNext_start (settings : BrokerSettings) (J : List Note) (c : Chain) :
    AdmitsNext settings J (.started c) := fun _ _ => .inl rfl

/-- Any other note has to follow the last one of its thread. -/
theorem admitsNext_of_getLast? {settings : BrokerSettings} {J : List Note} {l n : Note} {c : Chain}
    (hc : n.chain? = some c) (hl : (thread c.id J).getLast? = some l)
    (hfollows : Follows settings l n) : AdmitsNext settings J n := by
  intro c' hc'
  rw [hc] at hc'
  cases hc'
  exact .inr ⟨l, hl, hfollows⟩

/-- Where each note suits the last one about its chain, every thread is a path. -/
theorem Lawful.legal {settings : BrokerSettings} {J : List Note}
    (h : Lawful (AdmitsNext settings) J) (id : UInt64) : Legal settings (thread id J) := by
  induction J using List.reverseRecOn with
  | nil => exact legal_nil settings
  | append_singleton J n ih =>
      obtain ⟨hJ, hn⟩ := lawful_concat.mp h
      have ih := ih hJ
      rw [thread_concat, Note.threaded]
      cases hid : n.concerns id with
      | false => exact ih
      | true =>
          obtain ⟨c, hc, rfl⟩ := (concerns_iff n id).mp hid
          cases hs : n.starts with
          | true =>
              cases n with
              | started d => exact legal_start settings d
              | _ => cases hs
          | false =>
              obtain hstart | ⟨l, hl, hfollows⟩ := hn c hc
              · rw [hs] at hstart
                cases hstart
              · exact ih.concat hl hfollows

/-- A chain that has been nowhere, and knows what its packet spells. -/
structure Chain.Fresh (mode : DecodeMode) (c : Chain) : Prop where
  decoded : Packet.decode mode c.bytes = .ok c.packet
  unseen : c.visited = []

/-! ## what happens next is what the note says -/

namespace Chain

/-- Behind a note that lets the chain go on, what happens is what its candidates say. -/
theorem sends_nextFrom (mode : DecodeMode) {n : Note} {x : Chain} (hopens : n.opens = true)
    (hgoes : n.goesOn = true) (hx : n.after? mode = some x) (candidates : List Client) :
    n.Sends mode (x.nextFrom candidates).2 (x.nextFrom candidates).1 := by
  obtain ⟨client, _, _, h⟩ | h := nextFrom_cases x candidates
  · rw [h]
    exact ⟨hopens, x, hx, hgoes, rfl⟩
  · rw [h]
    refine ⟨hopens, x, hx, rfl, ?_⟩
    cases n with
    | directed c cause d =>
        cases d with
        | cancel => cases hgoes
        | _ => rfl
    | _ => rfl

/-- Behind a directive, what happens is what the directive leads to. -/
theorem sends_advance (c : Chain) (r : Registry) (mode : DecodeMode) (cause : Cause)
    (d : Directive) :
    (Note.directed c cause d).Sends mode (c.advance r mode d).2 (c.advance r mode d).1 := by
  cases hgoes : d.goesOn with
  | true =>
      rw [advance_of_goesOn c r mode hgoes]
      exact sends_nextFrom (n := .directed c cause d) mode rfl hgoes rfl _
  | false =>
      cases d with
      | finish packet direction =>
          rw [advance_finish]
          exact ⟨rfl, _, rfl, rfl, rfl⟩
      | cancel =>
          rw [advance_cancel]
          exact ⟨rfl, _, rfl, rfl, rfl⟩
      | forward packet direction => cases hgoes
      | pass => cases hgoes

end Chain

/-! ## every move keeps the threads -/

namespace Broker

/-- The journal is lawful, every chain of the table stands where its thread ends, and the one that
is carried on is on its way as its thread says. -/
structure Threaded (settings : BrokerSettings) (m : Moment) : Prop where
  same : m.broker.settings = settings
  lawful : Lawful (AdmitsNext settings) m.journal
  fresh : ∀ c, .started c ∈ m.journal → c.Fresh settings.decodeMode
  waits : ∀ x ∈ m.broker.chains, (∀ f ∈ m.flight, x.chain.id ≠ f.1.chain.id) →
    ∃ client, (thread x.chain.id m.journal).getLast? = some (.handed x.chain client true) ∧
      x.chain.holder = some client
  flies : ∀ f ∈ m.flight, ∃ n, (thread f.1.chain.id m.journal).getLast? = some n ∧
    n.Sends settings.decodeMode f.1.chain f.2

variable {settings : BrokerSettings} {J : List Note} {b b' : Broker} {a : ActiveChain}

/-- What is told of no chain moves no thread, as long as the chains are the same. -/
theorem Threaded.silent {N : List Note} (h : Threaded settings ⟨J, b, none⟩)
    (hN : ∀ n ∈ N, n.chain? = none) (hsettings : b'.settings = b.settings)
    (hchains : ∀ x ∈ b'.chains, ∃ y ∈ b.chains, y.chain = x.chain) :
    Threaded settings ⟨J ++ N, b', none⟩ := by
  constructor
  · exact hsettings.trans h.same
  · refine h.lawful.append fun p n hn c hc => ?_
    rw [hN n hn] at hc
    cases hc
  · intro c hc
    cases List.mem_append.mp hc with
    | inl hold => exact h.fresh c hold
    | inr hnew => cases hN _ hnew
  · intro x hx _
    obtain ⟨y, hy, hyx⟩ := hchains x hx
    rw [thread_append_silent _ J hN, ← hyx]
    exact h.waits y hy (fun f hf => by cases hf)
  · intro f hf
    cases hf

theorem Threaded.still (h : Threaded settings ⟨J, b, none⟩) (hsettings : b'.settings = b.settings)
    (hchains : ∀ x ∈ b'.chains, ∃ y ∈ b.chains, y.chain = x.chain) :
    Threaded settings ⟨J, b', none⟩ := by
  have hsilent := h.silent (N := []) (by simp) hsettings hchains
  rwa [List.append_nil] at hsilent

/-- A note about one chain is not in the thread of another. -/
theorem thread_concat_of_ne {n : Note} {c : Chain} {id : UInt64} (hc : n.chain? = some c)
    (h : id ≠ c.id) : thread id (J ++ [n]) = thread id J := by
  rw [thread_concat, Note.threaded, concerns_eq_false_of_ne hc (Ne.symm h)]
  rfl

/-- It is the last of its own. -/
theorem getLast?_thread_concat {n : Note} {c : Chain} (hc : n.chain? = some c) :
    (thread c.id (J ++ [n])).getLast? = some n := by
  rw [getLast?_thread, List.filter_append]
  simp [(concerns_iff n c.id).mpr ⟨c, hc, rfl⟩]

/-- A note that starts no chain leaves those that have started as they are. -/
theorem fresh_concat {n : Note} (h : ∀ c, .started c ∈ J → c.Fresh settings.decodeMode)
    (hn : n.starts = false) : ∀ c, .started c ∈ J ++ [n] → c.Fresh settings.decodeMode := by
  intro c hc
  cases List.mem_append.mp hc with
  | inl hold => exact h c hold
  | inr hnew =>
      rw [← List.mem_singleton.mp hnew] at hn
      cases hn

/-- A directive meets a chain where its thread ends, and sends it on its way. -/
theorem Threaded.directed {client : Client} {sent : Bool} {cause : Cause} {d : Directive}
    (hsame : b'.settings = settings) (hlawful : Lawful (AdmitsNext settings) J)
    (hfresh : ∀ c, .started c ∈ J → c.Fresh settings.decodeMode)
    (hwaits : ∀ x ∈ b'.chains, x.chain.id ≠ a.chain.id →
      ∃ client, (thread x.chain.id J).getLast? = some (.handed x.chain client true) ∧
        x.chain.holder = some client)
    (hlast : (thread a.chain.id J).getLast? = some (.handed a.chain client sent))
    (hholder : a.chain.holder = some client) (hfits : cause.Fits settings client sent d) :
    Threaded settings ⟨J ++ [.directed a.chain cause d], b', some (b'.advanced a d)⟩ := by
  have hid : (b'.advanced a d).1.chain.id = a.chain.id := Chain.advance_id _ _ _ _
  constructor
  · exact hsame
  · exact lawful_concat.mpr
      ⟨hlawful, admitsNext_of_getLast? rfl hlast (.directed hholder hfits)⟩
  · exact fresh_concat hfresh rfl
  · intro x hx hflight
    have hne : x.chain.id ≠ a.chain.id := hid ▸ hflight _ rfl
    rw [thread_concat_of_ne rfl hne]
    exact hwaits x hx hne
  · rintro f ⟨rfl⟩
    rw [hid]
    refine ⟨_, getLast?_thread_concat rfl, ?_⟩
    rw [← hsame]
    exact Chain.sends_advance _ _ _ _ _

/-- A directive that the broker lets pass fits a holder that got the packet. -/
theorem fits_of_allows {client : Client} {cause : Cause} {d : Directive}
    (hsame : b.settings = settings) (hholder : a.chain.holder = some client)
    (hd : b.Allows a d cause) : cause.Fits settings client true d := by
  subst hsame
  cases cause with
  | answer ext interestId =>
      obtain ⟨h, hh, hext, hinterest⟩ := hd
      rw [hholder] at hh
      cases hh
      exact ⟨rfl, hext, hinterest⟩
  | timeout => exact ⟨rfl, hd.1⟩
  | disconnect => exact hd

/-- The note of a hand-over follows what lets the chain go on, and names its holder. -/
theorem Threaded.handed {client : Client} (sent : Bool)
    (h : Threaded settings ⟨J, b, some (a, .dispatch client)⟩) :
    Lawful (AdmitsNext settings) (J ++ [.handed a.chain client sent]) ∧
      a.chain.holder = some client := by
  obtain ⟨n, hlast, _, x, hx, hgoes, ha⟩ := h.flies _ rfl
  constructor
  · refine lawful_concat.mpr ⟨h.lawful, admitsNext_of_getLast? rfl hlast ?_⟩
    dsimp only at ha
    rw [ha]
    exact .handed hgoes hx
  · dsimp only at ha
    rw [ha]
    rfl

/-- A frame that is queued leaves its chain in the table, where its thread ends. -/
theorem Threaded.queued {sent : Broker} {client : Client}
    (h : Threaded settings ⟨J, b, some (a, .dispatch client)⟩)
    (hs : b.trySend client.ext (a.chain.frameFor client) = some sent) :
    Threaded settings ⟨J ++ [.handed a.chain client true],
      sent.setChain { a with hopStarted := b.now }, none⟩ := by
  obtain ⟨hlawful, hholder⟩ := h.handed true
  constructor
  · exact (carried_of_trySend hs).settings.trans h.same
  · exact hlawful
  · exact fresh_concat h.fresh rfl
  · intro x hx _
    cases mem_chains_setChain hx with
    | inl he =>
        subst he
        exact ⟨client, getLast?_thread_concat rfl, hholder⟩
    | inr hold =>
        obtain ⟨hx, hne⟩ := hold
        rw [chains_of_trySend hs] at hx
        rw [thread_concat_of_ne rfl hne]
        exact h.waits x hx (by rintro f ⟨rfl⟩; exact hne)
  · intro f hf
    cases hf

/-- One that is not has its chain directed at once, and carried on. -/
theorem Threaded.missed {client : Client}
    (h : Threaded settings ⟨J, b, some (a, .dispatch client)⟩)
    (hsettings : b'.settings = b.settings) (hchains : b'.chains = b.chains) :
    Threaded settings ⟨J ++ [.handed a.chain client false] ++
        [.directed a.chain .disconnect b.settings.onDisconnect.directive], b',
      some (b'.advanced a b.settings.onDisconnect.directive)⟩ := by
  obtain ⟨hlawful, hholder⟩ := h.handed false
  refine Threaded.directed (hsettings.trans h.same) hlawful (fresh_concat h.fresh rfl) ?_
    (getLast?_thread_concat rfl) hholder (by rw [h.same]; rfl)
  intro x hx hne
  rw [hchains] at hx
  rw [thread_concat_of_ne rfl hne]
  exact h.waits x hx (by rintro f ⟨rfl⟩; exact hne)

/-- The note of an outcome follows what ends the chain, as it ends it. -/
theorem Threaded.ended {step : Step} {o : Outcome} (h : Threaded settings ⟨J, b, some (a, step)⟩)
    (ho : step = .finished ∧ o = .forward a.chain.outgoing ∨
      step = .cancelled ∧ o = .cancelled a.chain.outgoing) :
    Threaded settings ⟨J ++ [.ended a.chain o], b.conclude a o, none⟩ := by
  obtain ⟨n, hlast, hopens, x, hx, hstep⟩ := h.flies _ rfl
  have hended : a.chain = x.leave ∧ o = n.outcome a.chain := by
    obtain ⟨rfl, rfl⟩ | ⟨rfl, rfl⟩ := ho
    · exact ⟨hstep.1, hstep.2.symm⟩
    · exact ⟨hstep.1, hstep.2.symm⟩
  have hfollows : Follows settings n (.ended a.chain o) := by
    rw [hended.2, hended.1]
    exact .ended hopens hx
  constructor
  · exact (carried_conclude b a o).settings.trans h.same
  · exact lawful_concat.mpr ⟨h.lawful, admitsNext_of_getLast? rfl hlast hfollows⟩
  · exact fresh_concat h.fresh rfl
  · intro y hy _
    rw [chains_conclude, mem_chains_dropChain] at hy
    rw [thread_concat_of_ne rfl hy.2]
    exact h.waits y hy.1 (by rintro f ⟨rfl⟩; exact hy.2)
  · intro f hf
    cases hf

/-- A chain that starts is carried on with a thread of its own. -/
theorem Threaded.begun {c : Chain} {candidates : List Client} (h : Threaded settings ⟨J, b, none⟩)
    (hfresh : c.Fresh settings.decodeMode)
    (ha : a.chain = (c.nextFrom candidates).2) (hsettings : b'.settings = b.settings)
    (hchains : b'.chains = (b.addChain a).chains) :
    Threaded settings ⟨J ++ [.started c], b', some (a, (c.nextFrom candidates).1)⟩ := by
  have hid : a.chain.id = c.id := by rw [ha, Chain.nextFrom_id]
  constructor
  · exact hsettings.trans h.same
  · exact lawful_concat.mpr ⟨h.lawful, admitsNext_start settings J c⟩
  · intro d hd
    cases List.mem_append.mp hd with
    | inl hold => exact h.fresh d hold
    | inr hnew =>
        cases List.mem_singleton.mp hnew
        exact hfresh
  · intro x hx hflight
    have hne : x.chain.id ≠ a.chain.id := hflight _ rfl
    rw [thread_concat_of_ne rfl (hid ▸ hne)]
    simp only [hchains, addChain, List.mem_append, List.mem_filter, List.mem_singleton] at hx
    cases hx with
    | inl hold => exact h.waits x hold.1 (fun f hf => by cases hf)
    | inr he => exact absurd (by rw [he]) hne
  · rintro f ⟨rfl⟩
    rw [hid, ha]
    exact ⟨_, getLast?_thread_concat rfl, Chain.sends_nextFrom _ rfl rfl rfl _⟩

/-- A chain is dropped only while it waits for its holder. -/
theorem Threaded.dropped (h : Threaded settings ⟨J, b, none⟩)
    (ha : b.chain? a.chain.id = some a) :
    Threaded settings ⟨J ++ [.dropped a.chain], b.dropAbandoned a.chain.id, none⟩ := by
  obtain ⟨client, hlast, _⟩ := h.waits a (chain?_eq_some ha).1 (fun f hf => by cases hf)
  constructor
  · exact h.same
  · exact lawful_concat.mpr ⟨h.lawful, admitsNext_of_getLast? rfl hlast .dropped⟩
  · exact fresh_concat h.fresh rfl
  · intro x hx _
    obtain ⟨hx, hne⟩ := (mem_chains_dropChain b a.chain.id x).mp hx
    rw [thread_concat_of_ne rfl hne]
    exact h.waits x hx (fun f hf => by cases hf)
  · intro f hf
    cases hf

/-- Every move keeps the threads. -/
theorem Threaded.move {m m' : Moment} (hmove : Move m m') (h : Threaded settings m) :
    Threaded settings m' := by
  cases hmove with
  | happened e =>
      refine h.silent (N := [.happened e]) ?_ rfl fun x hx => ⟨x, hx, rfl⟩
      intro n hn
      rw [List.mem_singleton.mp hn]
      rfl
  | directed ha hd =>
      obtain ⟨client, hlast, hholder⟩ :=
        h.waits _ (chain?_eq_some ha).1 (fun f hf => by cases hf)
      exact Threaded.directed h.same h.lawful h.fresh
        (fun x hx _ => h.waits x hx (fun f hf => by cases hf)) hlast hholder
        (fits_of_allows h.same hholder hd)
  | handed hs => exact h.queued hs
  | missed _ => exact h.missed rfl rfl
  | finished => exact h.ended (.inl ⟨rfl, rfl⟩)
  | cancelled => exact h.ended (.inr ⟨rfl, rfl⟩)
  | joined | replaced | left | refused | taken | forgot =>
      exact h.still rfl fun x hx => ⟨x, hx, rfl⟩
  | copied flags _ _ _ =>
      refine h.silent (chain?_notifyNotes _ _ _ _ _) (told_notify _ _ _ _ _).settings
        fun x hx => ?_
      rw [(told_notify _ _ _ _ _).chains] at hx
      exact ⟨x, hx, rfl⟩
  | started direction flags hp hc hnext =>
      subst hc hnext
      exact h.begun ⟨by rw [← h.same]; exact hp, rfl⟩ rfl rfl rfl
  | abandoned ha =>
      refine h.still rfl fun x hx => ?_
      cases mem_chains_setChain hx with
      | inl he => exact ⟨_, (chain?_eq_some ha).1, by rw [he]⟩
      | inr hold => exact ⟨x, hold.1, rfl⟩
  | redeemed d _ _ =>
      refine h.silent (chain?_redeemNotes _ _ _) (posted_redeem _ _ _).settings fun x hx => ?_
      rw [(posted_redeem _ _ _).chains] at hx
      exact ⟨x, hx, rfl⟩
  | pushed direction flags _ =>
      refine h.silent (chain?_enqueueNotes _ _ _ _ _) (posted_enqueue _ _ _ _ _).settings
        fun x hx => ?_
      rw [(posted_enqueue _ _ _ _ _).chains] at hx
      exact ⟨x, hx, rfl⟩
  | dropped ha _ => exact h.dropped ha
  | outside he =>
      refine h.still (settings_move (.outside (J := []) he)) fun x hx => ?_
      rw [chains_outside he] at hx
      exact ⟨x, hx, rfl⟩
  | reordered hp => exact h.still rfl fun x hx => ⟨x, hp.subset hx, rfl⟩

/-- **Every chain lives as it should**, over every run. -/
theorem Run.threaded (h : Run settings J b) : Threaded settings ⟨J, b, none⟩ := by
  refine h.induct ⟨rfl, lawful_nil _, ?_, ?_, ?_⟩ fun _ _ hmove hm =>
    Threaded.move hmove hm
  · intro c hc
    cases hc
  · intro x hx
    cases hx
  · intro f hf
    cases hf

/-- A thread begins where its chain started, fresh. -/
theorem Run.thread_begins (h : Run settings J b) {p : List Note} (hp : p <+: J) {id : UInt64}
    {l : Note} (hl : (thread id p).getLast? = some l) :
    ∃ c₀ T, thread id p = .started c₀ :: T ∧ Legal settings (.started c₀ :: T) ∧
      c₀.Fresh settings.decodeMode := by
  have hlegal := (h.threaded.lawful.take hp).legal id
  cases ht : thread id p with
  | nil =>
      rw [ht] at hl
      cases hl
  | cons n T =>
      rw [ht] at hlegal
      have hmem : n ∈ thread id p := by
        rw [ht]
        exact List.mem_cons_self
      cases n with
      | started c₀ =>
          exact ⟨c₀, T, rfl, hlegal, h.threaded.fresh c₀ (hp.subset (mem_thread hmem).1)⟩
      | _ => cases hlegal.starts _ rfl

/-- A note about a chain follows the last one in its thread. -/
theorem Run.follows_of_note (h : Run settings J b) {p : List Note} {n : Note} {c : Chain}
    (hp : p ++ [n] <+: J) (hc : n.chain? = some c) (hs : n.starts = false) :
    ∃ c₀ T l, thread c.id p = .started c₀ :: T ∧ Legal settings (.started c₀ :: T) ∧
      c₀.Fresh settings.decodeMode ∧
      (Note.started c₀ :: T).getLast? = some l ∧ Follows settings l n := by
  obtain hstart | ⟨l, hl, hfollows⟩ := h.threaded.lawful p n hp c hc
  · rw [hs] at hstart
    cases hstart
  · obtain ⟨c₀, T, ht, hlegal, hfresh⟩ := h.thread_begins ((List.prefix_append p [n]).trans hp) hl
    rw [ht] at hl
    exact ⟨c₀, T, l, ht, hlegal, hfresh, hl, hfollows⟩

end Broker

end Intercept
