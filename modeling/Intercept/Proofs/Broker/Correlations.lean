import Intercept.Proofs.Broker.Move

/-!
# Intercept.Proofs.Broker.Correlations

The copies that observers got, and the answers that were taken for them.

```
delivered N           the copies that the notes N say were queued
x.owed now            what is remembered of the copy x
redemptions id N      the answers that were taken for a copy with this id
Turnover now cs N cs' what may be answered was cs, and is cs' after the notes N
```

A move turns the remembered copies over in one of three ways
(`turnover_move`): a copy that is queued is remembered, one that is answered
is forgotten, and any may be forgotten without an answer.  So every remembered
copy was delivered (`Run.owed`), and no more answers are taken than copies were
delivered (`Run.redemptions_le`).
-/

namespace Intercept

/-- A copy for an observer. -/
structure Copy where
  client : Client
  frame : Frame
  /-- Whether it could be queued. -/
  sent : Bool

/-- The copy that a note tells of. -/
def Note.copy? : Note → Option Copy
  | copied client frame sent => some ⟨client, frame, sent⟩
  | _ => none

/-- The copies that notes tell of, in order. -/
def copies (N : List Note) : List Copy := N.filterMap Note.copy?

/-- Those of them that could be queued. -/
def delivered (N : List Note) : List Copy := (copies N).filter (·.sent)

/-- What is remembered of a copy. -/
def Copy.owed (x : Copy) (now : Nat) : Correlation :=
  { packetId := x.frame.packetId, ext := x.client.ext, session := x.client.session
    interestId := x.client.interest.id, direction := x.frame.direction
    flags := x.frame.packetFlags, created := now }

/-- Whether an answer is taken for a copy with this id. -/
def Note.redeems (id : UInt64) : Note → Bool
  | redeemed copy _ => copy.packetId = id
  | _ => false

/-- The answers that are taken for copies with this id. -/
def redemptions (id : UInt64) (N : List Note) : List Note := N.filter (·.redeems id)

/-! ## what journals tell of copies -/

theorem copies_append (N N' : List Note) : copies (N ++ N') = copies N ++ copies N' :=
  List.filterMap_append

theorem delivered_append (N N' : List Note) :
    delivered (N ++ N') = delivered N ++ delivered N' := by
  rw [delivered, copies_append, List.filter_append]
  rfl

theorem redemptions_append (id : UInt64) (N N' : List Note) :
    redemptions id (N ++ N') = redemptions id N ++ redemptions id N' :=
  List.filter_append _ _

/-- A copy is one of those that notes tell of if a note tells of it. -/
theorem mem_copies {N : List Note} {x : Copy} :
    x ∈ copies N ↔ .copied x.client x.frame x.sent ∈ N := by
  constructor
  · intro h
    obtain ⟨n, hn, hx⟩ := List.mem_filterMap.mp h
    cases n with
    | copied client frame sent =>
        cases hx
        exact hn
    | happened | started | directed | handed | ended | dropped | redeemed | injected => cases hx
  · exact fun h => List.mem_filterMap.mpr ⟨_, h, rfl⟩

/-- It was delivered if that note says so. -/
theorem mem_delivered {N : List Note} {x : Copy} :
    x ∈ delivered N ↔ .copied x.client x.frame x.sent ∈ N ∧ x.sent = true := by
  rw [delivered, List.mem_filter, mem_copies]

/-- Whether the note is neither about a copy nor about an answer to one. -/
def Note.sparesCopies : Note → Bool
  | copied .. | redeemed .. => false
  | _ => true

/-- A note about a chain is about no copy. -/
theorem Note.sparesCopies_of_aside (n : Note) (h : n.isAside = false) : n.sparesCopies = true := by
  cases n with
  | copied | redeemed | injected => cases h
  | happened | started | directed | handed | ended | dropped => rfl

/-- Notes that spare the copies tell of none. -/
theorem copies_of_spared {N : List Note} (h : ∀ n ∈ N, n.sparesCopies = true) : copies N = [] := by
  refine List.filterMap_eq_nil_iff.mpr fun n hn => ?_
  have hn := h n hn
  cases n with
  | copied | redeemed => cases hn
  | happened | started | directed | handed | ended | dropped | injected => rfl

theorem redemptions_of_spared {N : List Note} (h : ∀ n ∈ N, n.sparesCopies = true) (id : UInt64) :
    redemptions id N = [] := by
  refine List.filter_eq_nil_iff.mpr fun n hn => ?_
  have hn := h n hn
  cases n with
  | copied | redeemed => cases hn
  | happened | started | directed | handed | ended | dropped | injected => exact Bool.false_ne_true

namespace Broker

variable {settings : BrokerSettings} {J N : List Note} {b b' : Broker}

theorem sparesCopies_enqueueNotes (b : Broker) (bytes : Bytes) (direction : Direction)
    (flags : UInt32) (source : String) :
    ∀ n ∈ b.enqueueNotes bytes direction flags source, n.sparesCopies = true := by
  unfold enqueueNotes
  dsimp only
  split
  · simp [Note.sparesCopies]
  · simp

/-- Behind an answer to a copy there is at most the packet that it brings. -/
theorem redeemNotes_eq (b : Broker) (c : Correlation) (d : Directive) :
    ∃ N, b.redeemNotes c d = .redeemed c d :: N ∧ ∀ n ∈ N, n.sparesCopies = true := by
  cases d with
  | forward packet direction => exact ⟨_, rfl, sparesCopies_enqueueNotes _ _ _ _ _⟩
  | finish packet direction => exact ⟨_, rfl, sparesCopies_enqueueNotes _ _ _ _ _⟩
  | pass => exact ⟨[], rfl, by simp⟩
  | cancel => exact ⟨[], rfl, by simp⟩

/-- An answer for a copy makes no new one. -/
theorem copies_redeemNotes (b : Broker) (c : Correlation) (d : Directive) :
    copies (b.redeemNotes c d) = [] := by
  obtain ⟨N, hnotes, hN⟩ := redeemNotes_eq b c d
  have hrest : copies (.redeemed c d :: N) = copies N := rfl
  rw [hnotes, hrest, copies_of_spared hN]

/-! ## what becomes of the remembered copies -/

/-- What may be answered before some notes and after them. -/
inductive Turnover (now : Nat) :
    List Correlation → List Note → List Correlation → Prop where
  | fewer {cs cs' N} : cs'.Sublist cs → delivered N = [] → (∀ id, redemptions id N = []) →
      Turnover now cs N cs'
  | owed {cs} (x : Copy) : x.sent = true →
      Turnover now cs [.copied x.client x.frame true]
        (cs.filter (·.packetId ≠ x.frame.packetId) ++ [x.owed now])
  | redeemed {cs c N} (d : Directive) : c ∈ cs → (∀ n ∈ N, n.sparesCopies = true) →
      Turnover now cs (.redeemed c d :: N) (cs.filter (·.packetId ≠ c.packetId))

/-- Notes that spare the copies may go with fewer of them. -/
theorem Turnover.spared {cs cs' : List Correlation} {now : Nat} (hcs : cs'.Sublist cs)
    (hN : ∀ n ∈ N, n.sparesCopies = true) : Turnover now cs N cs' :=
  .fewer hcs (by rw [delivered, copies_of_spared hN]; rfl) (redemptions_of_spared hN)

/-- What comes from outside leaves the remembered copies alone. -/
theorem correlations_outside {e : Event} (he : e.IsOutside) :
    (b.step e).correlations = b.correlations := by
  cases e with
  | later | takeFrames | closeLink | takeInjected | closeInjected => rfl
  | _ => cases he

theorem correlations_enqueue (b : Broker) (bytes : Bytes) (direction : Direction) (flags : UInt32)
    (source : String) :
    (b.enqueue bytes direction flags source).2.correlations = b.correlations := by
  unfold enqueue
  split
  · rfl
  · rfl

/-- An answer takes its own copy off, and no other. -/
theorem correlations_redeem (b : Broker) (c : Correlation) (d : Directive) :
    (b.redeem c d).2.correlations = (b.dropCorrelation c.packetId).correlations := by
  rw [redeem_eq]
  split
  · rw [correlations_enqueue]
    rfl
  · rfl

/-- A copy that is queued is remembered. -/
theorem turnover_notify (b : Broker) (bytes : Bytes) (direction : Direction) (flags : UInt32)
    (client : Client) :
    Turnover b.now b.correlations (b.notifyNotes bytes direction flags client)
      (b.notify bytes direction flags client).correlations := by
  unfold notifyNotes notify
  dsimp only
  cases hs : b.drawn.trySend client.ext (b.copyFrame bytes direction flags client) with
  | none =>
      exact .fewer (List.Sublist.refl _) rfl fun _ => rfl
  | some sent =>
      have hcopies : sent.correlations = b.correlations := (carried_of_trySend hs).correlations
      simp only [count, addCorrelation, hcopies]
      exact .owed ⟨client, b.copyFrame bytes direction flags client, true⟩ rfl

/-- An answer is taken for a copy that is remembered, and forgotten with it. -/
theorem turnover_redeem {c : Correlation} (hc : c ∈ b.correlations) (d : Directive) :
    Turnover b.now b.correlations (b.redeemNotes c d) (b.redeem c d).2.correlations := by
  obtain ⟨N, hnotes, hN⟩ := redeemNotes_eq b c d
  rw [correlations_redeem, hnotes]
  exact .redeemed d hc hN

/-- Every move turns the remembered copies over in one of three ways. -/
theorem turnover_move {m m' : Moment} (hmove : Move m m') :
    ∃ N, m'.journal = m.journal ++ N ∧
      Turnover m.broker.now m.broker.correlations N m'.broker.correlations := by
  have hsilent : ∀ b' : Broker, b'.correlations.Sublist m.broker.correlations →
      ∃ N, m.journal = m.journal ++ N ∧
        Turnover m.broker.now m.broker.correlations N b'.correlations :=
    fun b' hfewer => ⟨[], (List.append_nil _).symm, .spared hfewer (by simp)⟩
  have hkept : ∀ (b' : Broker) N, b'.correlations = m.broker.correlations →
      (∀ n ∈ N, n.sparesCopies = true) → ∃ N', m.journal ++ N = m.journal ++ N' ∧
        Turnover m.broker.now m.broker.correlations N' b'.correlations :=
    fun b' N heq hN => ⟨N, rfl, .spared (heq ▸ List.Sublist.refl _) hN⟩
  cases hmove with
  | happened | directed | started | dropped => exact hkept _ _ rfl (by simp [Note.sparesCopies])
  | missed _ =>
      rw [List.append_assoc]
      exact hkept _ _ rfl (by simp [Note.sparesCopies])
  | handed hs => exact hkept _ _ (carried_of_trySend hs).correlations (by simp [Note.sparesCopies])
  | finished => exact hkept _ _ (carried_conclude _ _ _).correlations (by simp [Note.sparesCopies])
  | cancelled => exact hkept _ _ (carried_conclude _ _ _).correlations (by simp [Note.sparesCopies])
  | joined | refused | taken | abandoned | reordered => exact hsilent _ (List.Sublist.refl _)
  | replaced | left | forgot => exact hsilent _ List.filter_sublist
  | copied flags _ _ _ => exact ⟨_, rfl, turnover_notify _ _ _ _ _⟩
  | redeemed d _ hc => exact ⟨_, rfl, turnover_redeem (List.mem_of_find?_eq_some hc) d⟩
  | pushed direction flags _ =>
      exact hkept _ _ (correlations_enqueue _ _ _ _ _) (sparesCopies_enqueueNotes _ _ _ _ _)
  | outside he =>
      refine hsilent _ ?_
      rw [correlations_outside he]

/-! ## over a run -/

/-- Every copy that may be answered was delivered. -/
theorem Run.owed (h : Run settings J b) :
    ∀ c ∈ b.correlations, ∃ x ∈ delivered J, c = x.owed c.created := by
  refine h.induct
    (P := fun m => ∀ c ∈ m.broker.correlations, ∃ x ∈ delivered m.journal, c = x.owed c.created)
    (fun c hc => by cases hc) fun m m' hmove hm c hc => ?_
  obtain ⟨N, hjournal, hturn⟩ := turnover_move hmove
  have hbefore : c ∈ m.broker.correlations → ∃ x ∈ delivered m'.journal, c = x.owed c.created := by
    intro hold
    obtain ⟨x, hx, hc⟩ := hm c hold
    rw [hjournal, delivered_append]
    exact ⟨x, List.mem_append_left _ hx, hc⟩
  generalize m'.broker.correlations = cs' at hc hturn
  cases hturn with
  | fewer hsub => exact hbefore (hsub.subset hc)
  | owed x hsent =>
      rw [List.mem_append, List.mem_filter, List.mem_singleton] at hc
      obtain ⟨hold, _⟩ | rfl := hc
      · exact hbefore hold
      · refine ⟨x, ?_, rfl⟩
        rw [hjournal, mem_delivered, hsent]
        exact ⟨List.mem_append_right _ List.mem_cons_self, rfl⟩
  | redeemed => exact hbefore (List.mem_filter.mp hc).1

/-- The remembered copies with this id. -/
def owing (id : UInt64) (cs : List Correlation) : List Correlation := cs.filter (·.packetId = id)

/-- Answers taken and answers that may come are no more than copies. -/
def Backed (J : List Note) (cs : List Correlation) : Prop :=
  ∀ id, (redemptions id J).length + (owing id cs).length ≤
    ((delivered J).filter (·.frame.packetId = id)).length

/-- A copy that is taken off is owed no more, and the others are. -/
theorem owing_filter_ne (id i : UInt64) (cs : List Correlation) :
    owing id (cs.filter (·.packetId ≠ i)) = if id = i then [] else owing id cs := by
  unfold owing
  rw [List.filter_filter]
  by_cases hid : id = i
  · rw [if_pos hid, List.filter_eq_nil_iff]
    intro c _
    simp [hid]
  · rw [if_neg hid]
    refine List.filter_congr fun c _ => ?_
    by_cases hc : c.packetId = id
    · simp [hc, hid]
    · simp [hc]

/-- Every turnover leaves each answer, taken or to come, with a copy behind it. -/
theorem Backed.turnover {now : Nat} {cs cs' : List Correlation} (hturn : Turnover now cs N cs')
    (h : Backed J cs) : Backed (J ++ N) cs' := by
  intro id
  have hid := h id
  rw [redemptions_append, delivered_append, List.filter_append, List.length_append,
    List.length_append]
  cases hturn with
  | fewer hsub hcopies hanswers =>
      have hle : (owing id cs').length ≤ (owing id cs).length := (hsub.filter _).length_le
      rw [hcopies, hanswers]
      simp only [List.length_nil, List.filter_nil, Nat.add_zero]
      omega
  | owed x hsent =>
      have hanswers : redemptions id [.copied x.client x.frame true] = [] := rfl
      have hcopies : delivered [.copied x.client x.frame true] = [⟨x.client, x.frame, true⟩] := rfl
      have hnew : owing id (cs.filter (·.packetId ≠ x.frame.packetId) ++ [x.owed now]) =
          (if id = x.frame.packetId then [] else owing id cs) ++ owing id [x.owed now] := by
        rw [← owing_filter_ne]
        exact List.filter_append _ _
      rw [hanswers, hcopies, hnew, List.length_append]
      by_cases hx : x.frame.packetId = id
      · simp only [hx, owing, Copy.owed, if_true, List.length_nil, decide_true,
          List.filter_cons_of_pos, List.filter_nil, List.length_singleton]
        omega
      · simp only [hx, Ne.symm hx, owing, Copy.owed, if_false, decide_false, List.length_nil,
          List.filter_cons, List.filter_nil, Bool.false_eq_true]
        exact hid
  | @redeemed c N d hc hN =>
      have hanswers : redemptions id (.redeemed c d :: N) =
          if c.packetId = id then [.redeemed c d] else [] := by
        have hrest : N.filter (·.redeems id) = [] := redemptions_of_spared hN id
        rw [redemptions, List.filter_cons, hrest]
        simp [Note.redeems]
      have hcopies : delivered (.redeemed c d :: N) = [] := by
        have hrest : copies (.redeemed c d :: N) = copies N := rfl
        rw [delivered, hrest, copies_of_spared hN]
        rfl
      rw [hanswers, hcopies, owing_filter_ne]
      by_cases hx : c.packetId = id
      · -- the copy that is answered was one of those that could be
        have hpos : 0 < (owing id cs).length :=
          List.length_pos_of_mem (List.mem_filter.mpr ⟨hc, by simpa using hx⟩)
        simp only [hx, if_true, List.length_nil, List.filter_nil, List.length_singleton]
        omega
      · simp only [hx, Ne.symm hx, if_false, List.length_nil, List.filter_nil]
        exact hid

/-- **No more answers are taken than copies were delivered.** -/
theorem Run.redemptions_le (h : Run settings J b) (id : UInt64) :
    (redemptions id J).length ≤ ((delivered J).filter (·.frame.packetId = id)).length := by
  have hbacked : Backed J b.correlations := by
    refine h.induct (P := fun m => Backed m.journal m.broker.correlations) (fun id => Nat.le_refl _)
      fun m m' hmove hm => ?_
    obtain ⟨N, hjournal, hturn⟩ := turnover_move hmove
    rw [hjournal]
    exact hm.turnover hturn
  exact Nat.le_trans (Nat.le_add_right _ _) (hbacked id)

/-- The copy that the correlation belongs to was delivered, to this client and under this id. -/
def Known (J : List Note) (c : Correlation) : Prop :=
  ∃ client frame, .copied client frame true ∈ J ∧ frame.packetId = c.packetId ∧
    client.ext = c.ext ∧ client.session = c.session ∧ client.interest.id = c.interestId

/-- Every copy that may be answered is known. -/
theorem Run.known (h : Run settings J b) : ∀ c ∈ b.correlations, Known J c := by
  intro c hc
  obtain ⟨x, hx, howed⟩ := h.owed c hc
  obtain ⟨hmem, hsent⟩ := mem_delivered.mp hx
  rw [hsent] at hmem
  rw [howed]
  exact ⟨x.client, x.frame, hmem, rfl, rfl, rfl, rfl⟩

end Broker

end Intercept
