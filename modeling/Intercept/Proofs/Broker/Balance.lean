import Intercept.Proofs.Broker.Completion
import Intercept.Proofs.Broker.Identity
import Intercept.Proofs.Broker.Tally

/-!
# Intercept.Proofs.Broker.Balance

The books of a broker balance.

```
m.live                the chains under way, the one that is carried on as it now is
Passage cs N cs'      what becomes of the chains under way with the notes N
Balanced J cs         chains that started are under way or gone, directives are hits
InRange J b           nothing has wrapped, and no count of hits has come to its end
```

A move lets a chain in, changes it, or lets it out (`passage_move`), so the
books of the journal balance at every moment (`Run.balanced`).  As the
counters tell what the journal tells, they balance too: `Run.metrics_balance`.
-/

namespace Intercept

/-! ## what journals tell of hits -/

/-- The chain that a note takes out of the table, as it was then. -/
def Note.closed? : Note → Option Chain
  | ended c _ | dropped c => some c
  | _ => none

/-- Whether a directive is applied to a chain. -/
def Note.directs : Note → Bool
  | directed .. => true
  | _ => false

/-- Whether an answer is taken for a copy. -/
def Note.takes : Note → Bool
  | redeemed .. => true
  | _ => false

/-- Whether a directive is applied to a chain that can count no more of them. -/
def Note.saturates : Note → Bool
  | directed c .. => Chain.maxHits ≤ c.hitCount
  | _ => false

/-- The chains that have ended or have been dropped, as they were then. -/
def closed (J : List Note) : List Chain := J.filterMap Note.closed?

/-- How many directives chains have seen. -/
def hits (cs : List Chain) : Nat := (cs.map (·.hitCount)).sum

theorem closed_append (J N : List Note) : closed (J ++ N) = closed J ++ closed N :=
  List.filterMap_append

theorem hits_append (cs cs' : List Chain) : hits (cs ++ cs') = hits cs + hits cs' := by
  simp [hits]

theorem hits_cons (c : Chain) (cs : List Chain) : hits (c :: cs) = c.hitCount + hits cs := by
  simp [hits]

/-- The hits do not depend on the order of the chains. -/
theorem hits_of_perm {cs cs' : List Chain} (h : cs.Perm cs') : hits cs = hits cs' :=
  (h.map _).sum_eq

/-- Whether the note tells of no chain that comes, goes or changes. -/
def Note.isQuiet : Note → Bool
  | started _ | directed .. | ended .. | dropped _ => false
  | _ => true

/-- Quiet notes take no chain out of the table. -/
theorem closed_of_quiet {N : List Note} (h : ∀ n ∈ N, n.isQuiet = true) : closed N = [] := by
  refine List.filterMap_eq_nil_iff.mpr fun n hn => ?_
  have hn := h n hn
  cases n with
  | started | directed | ended | dropped => cases hn
  | _ => rfl

theorem countP_of_quiet {p : Note → Bool} (hp : ∀ n, n.isQuiet = true → p n = false)
    {N : List Note} (h : ∀ n ∈ N, n.isQuiet = true) : N.countP p = 0 :=
  List.countP_eq_zero.mpr fun n hn => by rw [hp n (h n hn)]; exact Bool.false_ne_true

/-! ## counting by kinds -/

/-- How many notes go under one of these counters. -/
def talliedAny (keys : List (Counter × Labels)) (J : List Note) : Nat :=
  J.countP fun n => n.counted?.any (· ∈ keys)

/-- A counter apart from the others adds its notes to theirs. -/
theorem talliedAny_cons {key : Counter × Labels} {keys : List (Counter × Labels)}
    (h : key ∉ keys) (J : List Note) :
    talliedAny (key :: keys) J = tallied key J + talliedAny keys J := by
  unfold talliedAny tallied
  induction J with
  | nil => rfl
  | cons n J ih =>
      rw [List.countP_cons, List.countP_cons, List.countP_cons, ih]
      cases hn : n.counted? with
      | none => simp
      | some other =>
          by_cases hkey : other = key
          · simp only [hkey, Option.any_some, h, List.mem_cons, true_or, decide_true,
              decide_false, if_true, Bool.false_eq_true, if_false]
            omega
          · simp only [hkey, Option.any_some, Option.some.injEq, List.mem_cons, false_or,
              decide_false, Bool.false_eq_true, if_false]
            omega

/-- Different counters count different notes. -/
theorem sum_tallied {keys : List (Counter × Labels)} (h : keys.Nodup) (J : List Note) :
    (keys.map (tallied · J)).sum = talliedAny keys J := by
  induction keys with
  | nil => simp [talliedAny]
  | cons key keys ih =>
      obtain ⟨hnot, hkeys⟩ := List.nodup_cons.mp h
      rw [List.map_cons, List.sum_cons, ih hkeys, talliedAny_cons hnot]

/-- The counter of chains that end in this way. -/
def outcomeKey (name : String) : Counter × Labels := (.chainOutcomes, [("outcome", name)])

/-- The counter of answers of this name. -/
def directiveKey (name : String) : Counter × Labels := (.directives, [("op", name)])

/-- The counters of the ways in which chains end or are dropped. -/
def closingKeys : List (Counter × Labels) :=
  [outcomeKey "forward", outcomeKey "cancelled", outcomeKey "abandoned"]

/-- The counters of answers and of what stands in their place. -/
def directingKeys : List (Counter × Labels) :=
  ["forward", "pass", "finish", "cancel"].map directiveKey ++
    [(.hopTimeouts, []), (.disconnectFallbacks, [])]

/-- The counter of started chains counts the starts. -/
theorem tallied_started (J : List Note) :
    tallied (.chainsStarted, []) J = J.countP Note.starts := by
  refine List.countP_congr fun n _ => ?_
  cases n with
  | directed c cause d => cases cause <;> simp [Note.counted?, Note.starts, Cause.counter]
  | copied client frame sent => cases sent <;> simp [Note.counted?, Note.starts]
  | _ => simp [Note.counted?, Note.starts]

/-- A chain that ends is counted as forwarded or as cancelled. -/
theorem talliedAny_ends {J : List Note} (h : ∀ c, .ended c .passthrough ∉ J) :
    talliedAny [outcomeKey "forward", outcomeKey "cancelled"] J = J.countP Note.ends := by
  refine List.countP_congr fun n hn => ?_
  cases n with
  | ended c o =>
      cases o with
      | passthrough => exact absurd hn (h c)
      | forward => simp [Note.counted?, Outcome.name, Note.ends, outcomeKey]
      | cancelled => simp [Note.counted?, Outcome.name, Note.ends, outcomeKey]
  | directed c cause d =>
      cases cause <;> simp [Note.counted?, Cause.counter, Note.ends, outcomeKey]
  | copied client frame sent => cases sent <;> simp [Note.counted?, Note.ends, outcomeKey]
  | _ => simp [Note.counted?, Note.ends, outcomeKey]

/-- A chain that leaves the table is counted as forwarded, as cancelled or as abandoned. -/
theorem talliedAny_closes {J : List Note} (h : ∀ c, .ended c .passthrough ∉ J) :
    talliedAny closingKeys J = J.countP Note.closes := by
  refine List.countP_congr fun n hn => ?_
  cases n with
  | ended c o =>
      cases o with
      | passthrough => exact absurd hn (h c)
      | forward => simp [Note.counted?, Outcome.name, Note.closes, outcomeKey, closingKeys]
      | cancelled => simp [Note.counted?, Outcome.name, Note.closes, outcomeKey, closingKeys]
  | directed c cause d =>
      cases cause <;> simp [Note.counted?, Cause.counter, Note.closes, outcomeKey, closingKeys]
  | copied client frame sent =>
      cases sent <;> simp [Note.counted?, Note.closes, outcomeKey, closingKeys]
  | _ => simp [Note.counted?, Note.closes, outcomeKey, closingKeys]

/-- A directive is counted by its cause, an answer for a copy by its name. -/
theorem talliedAny_directs (J : List Note) :
    talliedAny directingKeys J = J.countP fun n => n.directs || n.takes := by
  refine List.countP_congr fun n _ => ?_
  cases n with
  | directed c cause d =>
      cases cause with
      | answer =>
          cases d <;> simp [Note.counted?, Cause.counter, Cause.labels, Directive.name,
            Note.directs, directiveKey, directingKeys]
      | timeout => simp [Note.counted?, Cause.counter, Cause.labels, Note.directs, directingKeys]
      | disconnect => simp [Note.counted?, Cause.counter, Cause.labels, Note.directs, directingKeys]
  | redeemed c d =>
      cases d <;> simp [Note.counted?, Directive.name, Note.directs, Note.takes, directiveKey,
        directingKeys]
  | copied client frame sent =>
      cases sent <;> simp [Note.counted?, Note.directs, Note.takes, directiveKey, directingKeys]
  | _ => simp [Note.counted?, Note.directs, Note.takes, directiveKey, directingKeys]

/-- No note is both a directive for a chain and an answer for a copy. -/
theorem countP_directs_or_takes (J : List Note) :
    (J.countP fun n => n.directs || n.takes) = J.countP Note.directs + J.countP Note.takes := by
  induction J with
  | nil => rfl
  | cons n J ih =>
      rw [List.countP_cons, List.countP_cons, List.countP_cons, ih]
      cases n with
      | directed =>
          simp only [Note.directs, Note.takes, Bool.true_or, if_true, Bool.false_eq_true, if_false]
          omega
      | redeemed =>
          simp only [Note.directs, Note.takes, Bool.false_or, if_true, Bool.false_eq_true, if_false]
          omega
      | _ => rfl

/-! ## what becomes of the chains under way -/

/-- The chains under way: those of the table, the one that is carried on as it now is. -/
def Moment.live (m : Moment) : List Chain :=
  match m.flight with
  | none => m.broker.chains.map (·.chain)
  | some (a, _) => a.chain :: (m.broker.chains.filter (·.chain.id ≠ a.chain.id)).map (·.chain)

/-- What becomes of the chains under way with some notes. -/
inductive Passage (cs : List Chain) : List Note → List Chain → Prop where
  | still {cs' N} : (∀ n ∈ N, n.isQuiet = true) → cs'.Perm cs → Passage cs N cs'
  | comes {cs' c c'} : c'.hitCount = 0 → cs'.Perm (c' :: cs) → Passage cs [.started c] cs'
  | changes {cs' rest N c c' cause d} : (∀ n ∈ N, n.isQuiet = true) →
      c'.hitCount = min (c.hitCount + 1) Chain.maxHits → cs.Perm (c :: rest) →
      cs'.Perm (c' :: rest) → Passage cs (N ++ [.directed c cause d]) cs'
  | goes {cs' n c} : n.closed? = some c → (∀ c, n ≠ .ended c .passthrough) → cs.Perm (c :: cs') →
      Passage cs [n] cs'

/-- The books: a chain that has started is under way or has left the table, and every directive is
a hit of one of them, as long as each can count it. -/
structure Balanced (J : List Note) (cs : List Chain) : Prop where
  outcomes : ∀ c, .ended c .passthrough ∉ J
  chains : J.countP Note.starts = J.countP Note.closes + cs.length
  directives : (∀ n ∈ J, n.saturates = false) →
    J.countP Note.directs = hits (closed J) + hits cs

/-- A note that takes a chain out neither starts nor directs one. -/
theorem Note.of_closed? {n : Note} {c : Chain} (h : n.closed? = some c) :
    n.starts = false ∧ n.closes = true ∧ n.directs = false := by
  cases n with
  | ended | dropped => exact ⟨rfl, rfl, rfl⟩
  | _ => cases h

/-- A quiet note does nothing to chains. -/
theorem Note.of_isQuiet {n : Note} (h : n.isQuiet = true) :
    n.starts = false ∧ n.closes = false ∧ n.directs = false := by
  cases n with
  | started | directed | ended | dropped => cases h
  | _ => exact ⟨rfl, rfl, rfl⟩

theorem not_mem_of_quiet {N : List Note} (h : ∀ n ∈ N, n.isQuiet = true) (c : Chain) (o : Outcome) :
    .ended c o ∉ N := fun hmem => by cases h _ hmem

variable {J N : List Note} {cs cs' : List Chain}

/-- Quiet notes leave the books as they are. -/
theorem Balanced.quiet (h : Balanced J cs) (hN : ∀ n ∈ N, n.isQuiet = true) (hcs : cs'.Perm cs) :
    Balanced (J ++ N) cs' := by
  have hstarts := countP_of_quiet (fun n hn => (Note.of_isQuiet hn).1) hN
  have hcloses := countP_of_quiet (fun n hn => (Note.of_isQuiet hn).2.1) hN
  have hdirects := countP_of_quiet (fun n hn => (Note.of_isQuiet hn).2.2) hN
  constructor
  · intro c hmem
    exact (List.mem_append.mp hmem).elim (h.outcomes c) (not_mem_of_quiet hN c _)
  · rw [List.countP_append, List.countP_append, hstarts, hcloses, hcs.length_eq]
    exact h.chains
  · intro hlow
    rw [List.countP_append, hdirects, closed_append, closed_of_quiet hN, List.append_nil,
      hits_of_perm hcs]
    exact h.directives fun n hn => hlow n (List.mem_append_left N hn)

/-- The outcome of a chain is never told as passthrough. -/
theorem Balanced.concat {n : Note} (h : Balanced J cs) (hn : ∀ c, n ≠ .ended c .passthrough) :
    ∀ c, .ended c .passthrough ∉ J ++ [n] := by
  intro c hmem
  cases List.mem_append.mp hmem with
  | inl hold => exact h.outcomes c hold
  | inr hnew => exact hn c (List.mem_singleton.mp hnew).symm

/-- A chain that comes is one more that has started and one more under way. -/
theorem Balanced.started {c c' : Chain} (h : Balanced J cs) (hhits : c'.hitCount = 0)
    (hcs : cs'.Perm (c' :: cs)) : Balanced (J ++ [.started c]) cs' := by
  have hbooks := h.chains
  refine ⟨h.concat (by simp), ?_, fun hlow => ?_⟩
  · rw [List.countP_append, List.countP_append, hcs.length_eq, List.length_cons]
    simp only [List.countP_singleton, Note.starts, Note.closes, if_true, Bool.false_eq_true,
      if_false]
    omega
  · have hold := h.directives fun n hn => hlow n (List.mem_append_left _ hn)
    have hnone : hits (closed [.started c]) = 0 := rfl
    rw [List.countP_append, closed_append, hits_append, hits_of_perm hcs, hits_cons, hhits]
    simp only [List.countP_singleton, Note.directs, Bool.false_eq_true, if_false]
    omega

/-- A directive is one more hit of its chain, as long as it can count it. -/
theorem Balanced.directed {rest : List Chain} {c c' : Chain} {cause : Cause} {d : Directive}
    (h : Balanced J cs) (hhits : c'.hitCount = min (c.hitCount + 1) Chain.maxHits)
    (hbefore : cs.Perm (c :: rest)) (hafter : cs'.Perm (c' :: rest)) :
    Balanced (J ++ [.directed c cause d]) cs' := by
  have hbooks := h.chains
  refine ⟨h.concat (by simp), ?_, fun hlow => ?_⟩
  · rw [hbefore.length_eq, List.length_cons] at hbooks
    rw [List.countP_append, List.countP_append, hafter.length_eq, List.length_cons]
    simp only [List.countP_singleton, Note.starts, Note.closes, Bool.false_eq_true, if_false]
    omega
  · have hold := h.directives fun n hn => hlow n (List.mem_append_left _ hn)
    have hroom : c.hitCount < Chain.maxHits := by
      have hlast := hlow (.directed c cause d) (List.mem_append_right _ List.mem_cons_self)
      simpa [Note.saturates] using hlast
    have hnone : hits (closed [.directed c cause d]) = 0 := rfl
    rw [hits_of_perm hbefore, hits_cons] at hold
    rw [List.countP_append, closed_append, hits_append, hits_of_perm hafter, hits_cons, hhits]
    simp only [List.countP_singleton, Note.directs, if_true]
    omega

/-- A chain that goes takes its hits along. -/
theorem Balanced.closed {n : Note} {c : Chain} (h : Balanced J cs) (hclosed : n.closed? = some c)
    (hn : ∀ c, n ≠ .ended c .passthrough) (hbefore : cs.Perm (c :: cs')) :
    Balanced (J ++ [n]) cs' := by
  obtain ⟨hstarts, hcloses, hdirects⟩ := Note.of_closed? hclosed
  have hbooks := h.chains
  refine ⟨h.concat hn, ?_, fun hlow => ?_⟩
  · rw [hbefore.length_eq, List.length_cons] at hbooks
    rw [List.countP_append, List.countP_append, List.countP_singleton, List.countP_singleton,
      hstarts, hcloses]
    simp only [if_true, Bool.false_eq_true, if_false]
    omega
  · have hold := h.directives fun n hn => hlow n (List.mem_append_left _ hn)
    have hone : Intercept.closed [n] = [c] := by simp [Intercept.closed, hclosed]
    have hnone : hits [] = 0 := rfl
    rw [hits_of_perm hbefore, hits_cons] at hold
    rw [List.countP_append, List.countP_singleton, hdirects, closed_append, hits_append, hone,
      hits_cons]
    simp only [Bool.false_eq_true, if_false]
    omega

/-- **The books stay balanced.** -/
theorem Balanced.passage (h : Balanced J cs) (hp : Passage cs N cs') : Balanced (J ++ N) cs' := by
  cases hp with
  | still hN hcs => exact h.quiet hN hcs
  | comes hhits hcs => exact h.started hhits hcs
  | changes hN hhits hbefore hafter =>
      rw [← List.append_assoc]
      exact (h.quiet hN (List.Perm.refl cs)).directed hhits hbefore hafter
  | goes hclosed hn hbefore => exact h.closed hclosed hn hbefore

namespace Broker

variable {settings : BrokerSettings} {b : Broker} {a : ActiveChain}

/-! ## every move is a passage -/

/-- A chain that is carried on stands in the table. -/
def Aboard (m : Moment) : Prop := ∀ f ∈ m.flight, (m.broker.chain? f.1.chain.id).isSome

/-- A directive leaves the id as it is. -/
theorem advanced_id (b : Broker) (a : ActiveChain) (d : Directive) :
    (b.advanced a d).1.chain.id = a.chain.id := Chain.advance_id _ _ _ _

/-- It is a hit, up to the largest count. -/
theorem advanced_hitCount (b : Broker) (a : ActiveChain) (d : Directive) :
    (b.advanced a d).1.chain.hitCount = min (a.chain.hitCount + 1) Chain.maxHits := by
  obtain ⟨_, _, _, h⟩ | h | h := Chain.advance_cases a.chain b.registry b.settings.decodeMode d
  · simp only [advanced, h, Chain.visit, Chain.taking_hitCount]
  · simp only [advanced, h, Chain.leave, Chain.taking_hitCount]
  · simp only [advanced, h, Chain.leave, Chain.taking_hitCount]

/-- A chain that is carried on is in the table, move by move. -/
theorem Aboard.move {m m' : Moment} (hmove : Move m m') (h : Aboard m) : Aboard m' := by
  cases hmove with
  | @directed J b a d cause ha =>
      rintro f ⟨rfl⟩
      rw [advanced_id]
      exact Option.isSome_iff_exists.mpr ⟨a, ha⟩
  | @missed J b a client hs =>
      rintro f ⟨rfl⟩
      rw [advanced_id]
      exact h _ rfl
  | @started J b bytes packet direction flags c next _ _ _ =>
      rintro f ⟨rfl⟩
      exact Option.isSome_iff_exists.mpr
        ⟨_, chain?_addChain_self b.drawn ⟨next.2, true, b.now, b.now⟩⟩
  | _ =>
      intro f hf
      cases hf

/-- The table is a chain of it and the others. -/
theorem perm_of_chain? (hb : b.Distinct) {id : UInt64} (ha : b.chain? id = some a) :
    b.chains.Perm (a :: b.chains.filter (·.chain.id ≠ id)) := by
  obtain ⟨hmem, rfl⟩ := chain?_eq_some ha
  exact perm_cons_filter_ne hb hmem

/-- A chain that is put in the place of the one with its id leaves the others alone. -/
theorem perm_setChain (hb : b.Distinct) (hin : (b.chain? a.chain.id).isSome) :
    (b.setChain a).chains.Perm (a :: b.chains.filter (·.chain.id ≠ a.chain.id)) := by
  have hset : (b.setChain a).Distinct := by
    unfold Distinct
    rw [ids_setChain]
    exact hb
  obtain ⟨x, hx⟩ := Option.isSome_iff_exists.mp hin
  have hself : (b.setChain a).chain? a.chain.id = some a := by
    rw [chain?_setChain_self, hx, Option.map_some]
  have hrest : (b.setChain a).chains.filter (·.chain.id ≠ a.chain.id) =
      b.chains.filter (·.chain.id ≠ a.chain.id) := by
    unfold setChain
    induction b.chains with
    | nil => rfl
    | cons y ys ih =>
        rw [List.map_cons, List.filter_cons, List.filter_cons, ih]
        by_cases hy : y.chain.id = a.chain.id
        · simp [hy]
        · simp [hy]
  have hperm := perm_of_chain? hset hself
  rwa [hrest] at hperm

/-- A chain that comes in under a new id leaves the others alone. -/
theorem filter_addChain (h : ∀ x ∈ b.chains, x.chain.id ≠ a.chain.id) :
    (b.addChain a).chains.filter (·.chain.id ≠ a.chain.id) = b.chains := by
  have hall : b.chains.filter (·.chain.id ≠ a.chain.id) = b.chains := by
    rw [List.filter_eq_self]
    intro x hx
    simpa using h x hx
  unfold addChain
  rw [List.filter_append, hall, hall]
  simp

/-- A move with quiet notes that leaves the chains alone is a passage. -/
theorem passage_still (J : List Note) {N : List Note} {b b' : Broker}
    (hN : ∀ n ∈ N, n.isQuiet = true)
    (hchains : (b'.chains.map (·.chain)).Perm (b.chains.map (·.chain))) :
    ∃ N', J ++ N = J ++ N' ∧
      Passage (Moment.live ⟨J, b, none⟩) N' (Moment.live ⟨J ++ N, b', none⟩) :=
  ⟨N, rfl, .still hN hchains⟩

theorem passage_silent (J : List Note) {b b' : Broker}
    (hchains : (b'.chains.map (·.chain)).Perm (b.chains.map (·.chain))) :
    ∃ N', J = J ++ N' ∧ Passage (Moment.live ⟨J, b, none⟩) N' (Moment.live ⟨J, b', none⟩) :=
  ⟨[], (List.append_nil _).symm, .still (by simp) hchains⟩

/-- A directive changes the chain that it is applied to, and no other. -/
theorem passage_directed {N : List Note} {cs : List Chain} (cause : Cause) (d : Directive)
    (hN : ∀ n ∈ N, n.isQuiet = true)
    (hcs : cs.Perm (a.chain :: (b.chains.filter (·.chain.id ≠ a.chain.id)).map (·.chain)))
    {J : List Note} {b' : Broker} (hchains : b'.chains = b.chains) :
    Passage cs (N ++ [.directed a.chain cause d])
      (Moment.live ⟨J, b', some (b.advanced a d)⟩) := by
  refine .changes hN (advanced_hitCount b a d) hcs ?_
  simp only [Moment.live, advanced_id, hchains]
  exact List.Perm.refl _

/-- **Every move lets a chain in, changes it, or lets it out**, as long as no id is given out
twice. -/
theorem passage_move {m m' : Moment} (h : Move m m') (hb : m.broker.Distinct) (haboard : Aboard m)
    (hfresh : ∀ id, m.broker.uses.count id ≤ (opened m.journal).count id)
    (honce : (opened m'.journal).Nodup) :
    ∃ N, m'.journal = m.journal ++ N ∧ Passage m.live N m'.live := by
  cases h with
  | happened e => exact passage_still _ (by simp [Note.isQuiet]) (List.Perm.refl _)
  | @directed J b a d cause ha _ =>
      exact ⟨_, rfl, passage_directed cause d (N := []) (by simp)
        ((perm_of_chain? hb ha).map (·.chain)) rfl⟩
  | @handed J b a client sent hs =>
      refine ⟨_, rfl, .still (by simp [Note.isQuiet]) ?_⟩
      have hchains : sent.chains = b.chains := chains_of_trySend hs
      have hsent : (sent.chain? a.chain.id).isSome := by
        rw [chain?, hchains]
        exact haboard _ rfl
      have hperm := perm_setChain (a := { a with hopStarted := b.now })
        (b := sent) (by unfold Distinct; rw [hchains]; exact hb) hsent
      rw [hchains] at hperm
      exact hperm.map (·.chain)
  | missed _ =>
      rw [List.append_assoc]
      exact ⟨_, rfl, passage_directed _ _ (by simp [Note.isQuiet]) (List.Perm.refl _) rfl⟩
  | finished =>
      refine ⟨_, rfl, .goes rfl (by simp) (List.Perm.of_eq ?_)⟩
      simp only [Moment.live, chains_conclude, dropChain]
  | cancelled =>
      refine ⟨_, rfl, .goes rfl (by simp) (List.Perm.of_eq ?_)⟩
      simp only [Moment.live, chains_conclude, dropChain]
  | joined | replaced | left | refused | taken | forgot =>
      exact passage_silent _ (List.Perm.refl _)
  | copied flags _ _ _ =>
      refine passage_still _ (by simp [notifyNotes, Note.isQuiet]) ?_
      rw [(told_notify _ _ _ _ _).chains]
  | @started J b bytes packet direction flags c next _ hc hnext =>
      have hid : next.2.id = c.id := by
        rw [hnext]
        exact Chain.nextFrom_id _ _
      have hnot : c.id ∉ opened J := by
        intro hmem
        rw [opened_append, List.nodup_append] at honce
        exact honce.2.2 c.id hmem c.id List.mem_cons_self rfl
      have hfree : ∀ x ∈ b.chains, x.chain.id ≠ next.2.id := by
        intro x hx he
        have hcount := hfresh c.id
        have hnone : (opened J).count c.id = 0 := List.count_eq_zero.mpr hnot
        have huses : c.id ∈ b.uses :=
          List.mem_append_left _ (List.mem_map.mpr ⟨x, hx, he.trans hid⟩)
        have hpos : 0 < b.uses.count c.id := List.count_pos_iff.mpr huses
        dsimp only at hcount
        omega
      have hrest : (b.drawn.addChain ⟨next.2, true, b.now, b.now⟩).chains.filter
          (·.chain.id ≠ next.2.id) = b.chains :=
        filter_addChain (a := ⟨next.2, true, b.now, b.now⟩) hfree
      have hhits : next.2.hitCount = 0 := by
        rw [hnext, hc]
        obtain ⟨_, _, _, hx⟩ | hx := Chain.nextFrom_cases _ _
        · rw [hx]
          rfl
        · rw [hx]
          rfl
      refine ⟨_, rfl, .comes hhits (List.Perm.of_eq ?_)⟩
      exact congrArg (fun chains => next.2 :: chains.map (·.chain)) hrest
  | @abandoned J b a ha =>
      refine passage_silent _ ?_
      have hset := perm_setChain (a := { a with awaited := false }) hb
        (Option.isSome_iff_exists.mpr ⟨a, ha⟩)
      exact (hset.map (·.chain)).trans ((perm_of_chain? hb ha).map (·.chain)).symm
  | redeemed d _ _ =>
      refine passage_still _ (fun n hn => ?_) ?_
      · have haside := isAside_redeemNotes _ _ d n hn
        cases n with
        | copied | redeemed | injected => rfl
        | _ => cases haside
      · rw [(posted_redeem _ _ _).chains]
  | pushed direction flags _ =>
      refine passage_still _ (fun n hn => ?_) ?_
      · have haside := isAside_enqueueNotes _ _ _ _ _ n hn
        cases n with
        | copied | redeemed | injected => rfl
        | _ => cases haside
      · rw [(posted_enqueue _ _ _ _ _).chains]
  | @dropped J b a ha _ =>
      have hperm := (perm_of_chain? hb ha).map (·.chain)
      exact ⟨_, rfl, .goes rfl (by simp) hperm⟩
  | outside he =>
      refine passage_silent _ ?_
      rw [chains_outside he]
  | reordered hp => exact passage_silent _ (hp.map _)

/-- **The books of a run balance** as long as 64 bits are enough for the ids. -/
theorem Run.balanced (h : Run settings J b) (hids : b.nextId ≤ UInt64.size) :
    Balanced J (b.chains.map (·.chain)) := by
  let P : Moment → Prop := fun m => m.broker.Distinct ∧ Aboard m ∧
    (∀ id, m.broker.uses.count id ≤ (opened m.journal).count id) ∧
    ((opened m.journal).Nodup → Balanced m.journal m.live)
  have hnew : P ⟨[], .new settings, none⟩ :=
    ⟨List.nodup_nil, fun f hf => (by cases hf), fun _ => Nat.le_refl _,
      fun _ => ⟨fun _ hc => (by cases hc), rfl, fun _ => rfl⟩⟩
  have hrun : P ⟨J, b, none⟩ := by
    refine h.induct hnew fun m m' hmove ⟨hb, haboard, hfresh, hbooks⟩ =>
      ⟨hb.move hmove, haboard.move hmove, fun id => ?_, fun honce => ?_⟩
    · obtain ⟨N, hJ, hcount⟩ := count_uses_move hmove
      have hid := hcount id
      have hold := hfresh id
      rw [hJ, opened_append, List.count_append]
      omega
    · obtain ⟨N, hJ, hpassage⟩ := passage_move hmove hb haboard hfresh honce
      rw [hJ, opened_append] at honce
      rw [hJ]
      exact (hbooks (List.nodup_append.mp honce).1).passage hpassage
  exact hrun.2.2.2 (h.nodup_opened hids)

/-! ## the counters balance -/

/-- Nothing has wrapped and no count of hits has come to its end: ids and counters have fitted into
64 bits, so does the number of extensions with its sign, and no directive was applied to a chain
that could not count it. -/
structure InRange (J : List Note) (b : Broker) : Prop where
  ids : b.nextId ≤ UInt64.size
  counters : ∀ key, tallied key J < UInt64.size
  extensions : b.registry.size < 2 ^ 63
  hits : ∀ n ∈ J, n.saturates = false

/-- The value of a counter under one label, as a number. -/
def labelled (b : Broker) (c : Counter) (label value : String) : Nat :=
  (b.metrics.count c [(label, value)]).toNat

/-- The value of a counter without labels, as a number. -/
def plain (b : Broker) (c : Counter) : Nat := (b.metrics.count c []).toNat

/-- A counter that has not wrapped is the number of its notes. -/
theorem Run.labelled_eq (h : Run settings J b) (hr : InRange J b) {c : Counter}
    (hc : c.isNoted = true) (label value : String) :
    b.labelled c label value = tallied (c, [(label, value)]) J := by
  have hkey : b.metrics.count c [(label, value)] = b.tally (c, [(label, value)]) := by
    rw [Metrics.count, Labels.ofList, List.mergeSort_singleton]
    rfl
  rw [labelled, hkey, h.tally_eq hc, UInt64.toNat_ofNat_of_lt' (hr.counters _)]

/-- So is one without labels. -/
theorem Run.plain_eq (h : Run settings J b) (hr : InRange J b) {c : Counter}
    (hc : c.isNoted = true) : b.plain c = tallied (c, []) J := by
  have hkey : b.metrics.count c [] = b.tally (c, []) := by
    rw [Metrics.count, Labels.ofList, List.mergeSort_nil]
    rfl
  rw [plain, hkey, h.tally_eq hc, UInt64.toNat_ofNat_of_lt' (hr.counters _)]

/-- What the counters of a broker come to. -/
structure Conserved (J : List Note) (b : Broker) : Prop where
  chains : b.plain .chainsStarted =
    b.labelled .chainOutcomes "outcome" "forward" +
      b.labelled .chainOutcomes "outcome" "cancelled" +
      b.labelled .chainOutcomes "outcome" "abandoned" + b.chains.length
  durations : (b.metrics.durations []).count.toNat =
    b.labelled .chainOutcomes "outcome" "forward" + b.labelled .chainOutcomes "outcome" "cancelled"
  extensions : (b.metrics.connected []).toInt = b.registry.size
  directives : (["forward", "pass", "finish", "cancel"].map (b.labelled .directives "op")).sum +
      b.plain .hopTimeouts + b.plain .disconnectFallbacks =
    hits (b.chains.map (·.chain)) + hits (closed J) + J.countP Note.takes

/-- **The counters balance.** Chains that have started are forwarded, cancelled, abandoned or still
under way; a duration is observed for each that was forwarded or cancelled; as many extensions are
connected as are registered; and every answer that was taken and every fallback is a hit of a chain,
under way or gone, or was taken for a copy. -/
theorem Run.metrics_balance (h : Run settings J b) (hr : InRange J b) : Conserved J b := by
  have hbooks := h.balanced hr.ids
  have hstarted := h.plain_eq hr (c := .chainsStarted) rfl
  have houtcome := h.labelled_eq hr (c := .chainOutcomes) rfl "outcome"
  have hends := talliedAny_ends hbooks.outcomes
  have hcloses := talliedAny_closes hbooks.outcomes
  rw [← sum_tallied (by decide)] at hends hcloses
  simp only [closingKeys, outcomeKey, List.map_cons, List.map_nil, List.sum_cons, List.sum_nil,
    ← houtcome] at hends hcloses
  have hchains := hbooks.chains
  rw [← tallied_started, ← hstarted, List.length_map] at hchains
  constructor
  · omega
  · -- no more durations are observed than chains have started
    have hfits : J.countP Note.ends < UInt64.size := by
      have hroom := hr.counters (.chainsStarted, [])
      rw [← hstarted] at hroom
      omega
    rw [h.durations_eq, UInt64.toNat_ofNat_of_lt' hfits]
    omega
  · rw [h.connected_eq, Int64.toInt_ofNat_of_lt hr.extensions]
  · have hanswer := h.labelled_eq hr (c := .directives) rfl "op"
    have htimeouts := h.plain_eq hr (c := .hopTimeouts) rfl
    have hdisconnects := h.plain_eq hr (c := .disconnectFallbacks) rfl
    have hdirects := talliedAny_directs J
    rw [← sum_tallied (by decide), countP_directs_or_takes, hbooks.directives hr.hits] at hdirects
    simp only [directingKeys, directiveKey, List.map_cons, List.map_nil, List.cons_append,
      List.nil_append, List.sum_cons, List.sum_nil, ← hanswer, ← htimeouts,
      ← hdisconnects] at hdirects
    simp only [List.map_cons, List.map_nil, List.sum_cons, List.sum_nil]
    omega

/-- Of four chains one is forwarded past a full link, one cancelled, one abandoned, and one waits;
one copy is answered. -/
theorem metrics_balance_past_a_full_link :
    ∃ J b, Run {} J b ∧ InRange J b ∧ b.plain .chainsStarted = 4 ∧
    (["forward", "cancelled", "abandoned"].map (b.labelled .chainOutcomes "outcome")) = [1, 1, 1] ∧
    b.chains.map (·.chain.hitCount) = [1] ∧ (closed J).map (·.hitCount) = [2, 0, 1] ∧
    b.plain .disconnectFallbacks = 1 ∧ J.countP Note.takes = 1 ∧ Conserved J b := by
  let text : Interest := { id := 1, kind := .net .genericText }
  let submit : Event := .submit [2, 0, 0, 0, 0] .clientToServer 0
  let run : List Event := [
    .register "observer" [{ text with blocking := .sendAndForget }] 4, .register "first" [text] 4,
    .register "second" [text] 1, submit, .respond "observer" ⟨1, 1, .pass⟩,
    .respond "first" ⟨2, 1, .pass⟩, submit, .respond "first" ⟨4, 1, .pass⟩, submit, .abandon 6,
    .prune, submit, .respond "first" ⟨8, 1, .cancel⟩]
  have h : Run {} _ (run.foldl Broker.step (.new {})) := Run.new.foldl run
  have hdrawn : (run.foldl Broker.step (.new {})).nextId = 9 := by cbv
  have hlength : ([] ++ (Broker.new {}).journal run).length = 35 := by cbv
  have hsize : (run.foldl Broker.step (.new {})).registry.size = 3 := by cbv
  have hhits : ([] ++ (Broker.new {}).journal run).all (!·.saturates) = true := by cbv
  have hr : InRange ([] ++ (Broker.new {}).journal run) (run.foldl Broker.step (.new {})) := by
    refine ⟨by rw [hdrawn]; decide, fun key => ?_, by rw [hsize]; decide, fun n hn => ?_⟩
    · have hle : tallied key ([] ++ (Broker.new {}).journal run) ≤ _ := List.countP_le_length
      rw [hlength] at hle
      exact Nat.lt_of_le_of_lt hle (by decide)
    · simpa using List.all_eq_true.mp hhits n hn
  exact ⟨_, _, h, hr, by cbv, by cbv, by cbv, by cbv, by cbv, by cbv, h.metrics_balance hr⟩

end Broker

end Intercept
