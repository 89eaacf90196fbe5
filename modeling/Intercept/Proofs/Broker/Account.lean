import Intercept.Proofs.Broker.Move

/-!
# Intercept.Proofs.Broker.Account

The journal accounts for what the broker shows to the outside: every frame on
a link is one that was handed or copied, every outcome is that of a chain that
ended, and every packet on the outbound path was injected.
-/

namespace Intercept

/-- A frame that was put on a link. -/
def Sent (J : List Note) (f : Frame) : Prop :=
  (∃ c client, .handed c client true ∈ J ∧ f = c.frameFor client) ∨
    ∃ client, .copied client f true ∈ J

theorem Sent.mono {J J' : List Note} {f : Frame} (h : Sent J f) (hJ : J ⊆ J') : Sent J' f := by
  obtain ⟨c, client, hmem, rfl⟩ | ⟨client, hmem⟩ := h
  · exact .inl ⟨c, client, hJ hmem, rfl⟩
  · exact .inr ⟨client, hJ hmem⟩

namespace Broker

/-- Everything to be seen of a broker is in the journal. -/
structure Accounted (J : List Note) (b : Broker) : Prop where
  frames : ∀ l ∈ b.links, ∀ f ∈ l.queue.items, Sent J f
  outcomes : ∀ e ∈ b.outcomes, ∃ c, .ended c e.2 ∈ J ∧ c.id = e.1
  packets : ∀ out ∈ b.injected.items, ∃ source, .injected out source ∈ J

theorem Accounted.mono {J J' : List Note} {b b' : Broker} (h : Accounted J b) (hJ : J ⊆ J')
    (hframes : ∀ l ∈ b'.links, ∀ f ∈ l.queue.items, Sent J' f ∨ ∃ l' ∈ b.links, f ∈ l'.queue.items)
    (houtcomes : ∀ e ∈ b'.outcomes, e ∈ b.outcomes ∨ ∃ c, .ended c e.2 ∈ J' ∧ c.id = e.1)
    (hpackets : ∀ out ∈ b'.injected.items,
      out ∈ b.injected.items ∨ ∃ source, .injected out source ∈ J') :
    Accounted J' b' := by
  constructor
  · intro l hl f hf
    obtain hsent | ⟨l', hl', hf'⟩ := hframes l hl f hf
    · exact hsent
    · exact (h.frames l' hl' f hf').mono hJ
  · intro e he
    obtain hold | hnew := houtcomes e he
    · obtain ⟨c, hmem, hid⟩ := h.outcomes e hold
      exact ⟨c, hJ hmem, hid⟩
    · exact hnew
  · intro out hout
    obtain hold | hnew := hpackets out hout
    · obtain ⟨source, hmem⟩ := h.packets out hold
      exact ⟨source, hJ hmem⟩
    · exact hnew

/-- Nothing new is to be seen. -/
theorem Accounted.same {J N : List Note} {b b' : Broker} (h : Accounted J b)
    (hlinks : b'.links = b.links) (houtcomes : b'.outcomes ⊆ b.outcomes)
    (hinjected : b'.injected = b.injected) : Accounted (J ++ N) b' := by
  refine h.mono (List.subset_append_left J N) ?_ (fun e he => .inl (houtcomes he)) ?_
  · intro l hl f hf
    rw [hlinks] at hl
    exact .inr ⟨l, hl, hf⟩
  · intro out hout
    rw [hinjected] at hout
    exact .inl hout

/-! ## frames -/

/-- A changed queue holds what it held, or what the change brings. -/
theorem mem_queue_mapQueue {b : Broker} {session : Nat}
    {f : BoundedQueue Frame → BoundedQueue Frame} {l : Link} {x : Frame}
    (hl : l ∈ (b.mapQueue session f).links) (hx : x ∈ l.queue.items) :
    ∃ l' ∈ b.links, x ∈ l'.queue.items ∨ (l'.session = session ∧ x ∈ (f l'.queue).items) := by
  simp only [mapQueue, List.mem_map] at hl
  obtain ⟨l', hl', rfl⟩ := hl
  by_cases hs : l'.session = session
  · rw [if_pos hs] at hx
    exact ⟨l', hl', .inr ⟨hs, hx⟩⟩
  · rw [if_neg hs] at hx
    exact ⟨l', hl', .inl hx⟩

theorem mem_queue_trySend {b sent : Broker} {ext : String} {frame x : Frame} {l : Link}
    (hs : b.trySend ext frame = some sent) (hl : l ∈ sent.links) (hx : x ∈ l.queue.items) :
    x = frame ∨ ∃ l' ∈ b.links, x ∈ l'.queue.items := by
  obtain ⟨link, queue, hlink, hqueue, rfl⟩ := trySend_eq_some hs
  obtain ⟨l', hl', hold | ⟨_, hnew⟩⟩ := mem_queue_mapQueue hl hx
  · exact .inr ⟨l', hl', hold⟩
  · rw [BoundedQueue.items_of_push? hqueue, List.mem_append, List.mem_singleton] at hnew
    cases hnew with
    | inl hold =>
        simp only [link?, Option.bind_eq_bind, Option.bind_eq_some_iff] at hlink
        obtain ⟨_, _, hfind⟩ := hlink
        exact .inr ⟨link, List.mem_of_find?_eq_some hfind, hold⟩
    | inr he => exact .inl he

theorem Accounted.handed {J : List Note} {b sent : Broker} {a a' : ActiveChain} {client : Client}
    (h : Accounted J b) (hs : b.trySend client.ext (a.chain.frameFor client) = some sent) :
    Accounted (J ++ [.handed a.chain client true]) (sent.setChain a') := by
  have hsent : Sent (J ++ [.handed a.chain client true]) (a.chain.frameFor client) :=
    .inl ⟨a.chain, client, List.mem_append_right J List.mem_cons_self, rfl⟩
  refine h.mono (List.subset_append_left J _) ?_ (fun e he => .inl ?_) fun out hout => .inl ?_
  · intro l hl f hf
    obtain rfl | hold := mem_queue_trySend hs hl hf
    · exact .inl hsent
    · exact .inr hold
  · obtain ⟨link, queue, _, _, rfl⟩ := trySend_eq_some hs
    exact he
  · rw [← (carried_of_trySend hs).injected]
    exact hout

theorem Accounted.copied {J : List Note} {b : Broker} (h : Accounted J b) (bytes : Bytes)
    (direction : Direction) (flags : UInt32) (client : Client) :
    Accounted (J ++ b.notifyNotes bytes direction flags client)
      (b.notify bytes direction flags client) := by
  have htold := told_notify b bytes direction flags client
  refine h.mono (List.subset_append_left J _) ?_ (fun e he => .inl (htold.outcomes ▸ he))
    fun out hout => .inl (htold.injected ▸ hout)
  intro l hl f hf
  unfold notify at hl
  unfold notifyNotes
  cases hs : b.drawn.trySend client.ext (b.copyFrame bytes direction flags client) with
  | none =>
      rw [hs] at hl
      exact .inr ⟨l, hl, hf⟩
  | some sent =>
      rw [hs] at hl
      obtain rfl | hold := mem_queue_trySend hs hl hf
      · exact .inl (.inr ⟨client, by simp [hs]⟩)
      · exact .inr hold

/-! ## outcomes -/

theorem Accounted.ended {J : List Note} {b : Broker} (h : Accounted J b) (a : ActiveChain)
    (o : Outcome) : Accounted (J ++ [.ended a.chain o]) (b.conclude a o) := by
  have hc := carried_conclude b a o
  refine h.mono (List.subset_append_left J _) ?_ (fun e he => ?_) fun out hout =>
    .inl (hc.injected ▸ hout)
  · intro l hl f hf
    refine .inr ⟨l, ?_, hf⟩
    unfold conclude at hl
    split at hl
    · exact hl
    · exact hl
  · unfold conclude at he
    split at he
    · cases List.mem_append.mp he with
      | inl hold => exact .inl hold
      | inr hnew =>
          rw [List.mem_singleton] at hnew
          subst hnew
          exact .inr ⟨a.chain, List.mem_append_right J List.mem_cons_self, rfl⟩
    · exact .inl he

/-! ## packets -/

theorem Accounted.enqueue {J : List Note} {b : Broker} (h : Accounted J b) (bytes : Bytes)
    (direction : Direction) (flags : UInt32) (source : String) :
    Accounted (J ++ b.enqueueNotes bytes direction flags source)
      (b.enqueue bytes direction flags source).2 := by
  unfold enqueueNotes Broker.enqueue
  cases hq : b.injected.push? ⟨b.freshId, bytes, direction, flags, 0⟩ with
  | none => exact h.same rfl (List.Subset.refl _) rfl
  | some queue =>
      refine h.mono (List.subset_append_left J _) (fun l hl f hf => .inr ⟨l, hl, hf⟩)
        (fun e he => .inl he) ?_
      intro out hout
      have hout : out ∈ queue.items := hout
      rw [BoundedQueue.items_of_push? hq, List.mem_append, List.mem_singleton] at hout
      cases hout with
      | inl hold => exact .inl hold
      | inr he => exact .inr ⟨source, by simp [hq, he]⟩

theorem Accounted.redeemed {J : List Note} {b : Broker} (h : Accounted J b) (c : Correlation)
    (d : Directive) : Accounted (J ++ b.redeemNotes c d) (b.redeem c d).2 := by
  have htaken : Accounted (J ++ [.redeemed c d])
      ((b.dropCorrelation c.packetId).count .directives [("op", d.name)]) :=
    h.same rfl (List.Subset.refl _) rfl
  unfold redeemNotes Broker.redeem
  rw [List.append_cons]
  cases d with
  | forward packet direction => exact htaken.enqueue _ _ _ _
  | finish packet direction => exact htaken.enqueue _ _ _ _
  | pass => rw [List.append_nil]; exact htaken
  | cancel => rw [List.append_nil]; exact htaken

/-! ## every move -/

/-- What is outside only takes. -/
theorem Accounted.outside {J : List Note} {b : Broker} {e : Event} (h : Accounted J b)
    (he : e.IsOutside) : Accounted J (b.step e) := by
  have hlinks : ∀ session f, (∀ q : BoundedQueue Frame, (f q).items ⊆ q.items) →
      Accounted J (b.mapQueue session f) := by
    intro session f hf
    refine h.mono (List.Subset.refl J) ?_ (fun e he => .inl he) fun out hout => .inl hout
    intro l hl x hx
    obtain ⟨l', hl', hold | ⟨_, hnew⟩⟩ := mem_queue_mapQueue hl hx
    · exact .inr ⟨l', hl', hold⟩
    · exact .inr ⟨l', hl', hf _ hnew⟩
  have hinjected : ∀ q : BoundedQueue Outgoing, q.items ⊆ b.injected.items →
      Accounted J { b with injected := q } :=
    fun q hq => h.mono (List.Subset.refl J) (fun l hl f hf => .inr ⟨l, hl, hf⟩)
      (fun e he => .inl he)
      fun out hout => .inl (hq hout)
  cases e with
  | later ms => exact ⟨h.frames, h.outcomes, h.packets⟩
  | takeFrames session n => exact hlinks session (·.taken n) fun q => List.drop_subset n q.items
  | closeLink session => exact hlinks session .closed fun q => List.nil_subset q.items
  | takeInjected n => exact hinjected _ (List.drop_subset n _)
  | closeInjected => exact hinjected _ (List.nil_subset _)
  | _ => cases he

/-- Every move keeps the books of queues and outcomes. -/
theorem Accounted.move {m m' : Moment} (hmove : Move m m') (h : Accounted m.journal m.broker) :
    Accounted m'.journal m'.broker := by
  have hquiet : ∀ b', b'.links = m.broker.links → b'.outcomes ⊆ m.broker.outcomes →
      b'.injected = m.broker.injected → Accounted m.journal b' := by
    intro b' hlinks houtcomes hinjected
    have := h.same (N := []) hlinks houtcomes hinjected
    rwa [List.append_nil] at this
  have hjoined : ∀ l : Link, l.queue.items = [] → ∀ b', b'.links = m.broker.links ++ [l] →
      b'.outcomes = m.broker.outcomes → b'.injected = m.broker.injected →
      Accounted m.journal b' := by
    intro l hempty b' hlinks houtcomes hinjected
    refine h.mono (List.Subset.refl _) ?_ (fun e he => .inl (houtcomes ▸ he)) fun out hout =>
      .inl (hinjected ▸ hout)
    intro l' hl' f hf
    rw [hlinks, List.mem_append, List.mem_singleton] at hl'
    obtain hold | rfl := hl'
    · exact .inr ⟨l', hold, hf⟩
    · rw [hempty] at hf
      cases hf
  cases hmove with
  | happened | directed | started | dropped => exact h.same rfl (List.Subset.refl _) rfl
  | missed =>
      rw [List.append_assoc]
      exact h.same rfl (List.Subset.refl _) rfl
  | handed hs => exact h.handed hs
  | finished => exact h.ended _ _
  | cancelled => exact h.ended _ _
  | joined | replaced => exact hjoined _ rfl _ rfl rfl rfl
  | left | refused | abandoned | forgot | reordered => exact hquiet _ rfl (List.Subset.refl _) rfl
  | copied flags _ _ _ => exact h.copied _ _ _ _
  | taken _ => exact hquiet _ rfl List.filter_sublist.subset rfl
  | redeemed d _ _ => exact h.redeemed _ d
  | pushed direction flags _ => exact h.enqueue _ _ _ _
  | outside he => exact h.outside he

/-- **The journal accounts for all that is to be seen.** -/
theorem Run.accounted {settings : BrokerSettings} {J : List Note} {b : Broker}
    (h : Run settings J b) : Accounted J b := by
  refine h.induct (P := fun m => Accounted m.journal m.broker) ⟨?_, ?_, ?_⟩ fun _ _ hmove hm =>
    Accounted.move hmove hm
  · intro l hl
    cases hl
  · intro e he
    cases he
  · intro out hout
    cases hout

end Broker

end Intercept
