import Intercept.Proofs.Broker.Correlations
import Intercept.Proofs.Broker.Feed
import Intercept.Proofs.Broker.Ids

/-!
# Intercept.Proofs.Broker.Observers

Every observer that wants a packet gets one copy of it, and at most one answer
is taken for the copy.

```
b.Observed ..            what handing in a packet does for the observers
Redeems p n              if n is about an answer to a copy, what stands before it in p
ObservedOnce settings J b
```

Whom a packet is copied to is decided when it is handed in, by the packet as it
came; no other event copies anything, whatever becomes of the packet in its
chain.  The copy is then on its own: it has its own id, it is answered under
that id or not at all, and what the answer brings is sent outside any chain.
-/

namespace Intercept

/-! ## copies have ids of their own -/

theorem map_copies_sublist_opened (N : List Note) :
    ((copies N).map (·.frame.packetId)).Sublist (opened N) := by
  induction N with
  | nil => exact List.Sublist.refl _
  | cons n ns ih =>
      cases n with
      | copied client frame sent => exact ih.cons_cons frame.packetId
      | started c => exact ih.cons c.id
      | injected packet source => exact ih.cons packet.packetId
      | happened | directed | handed | ended | dropped | redeemed => exact ih

theorem map_delivered_sublist_opened (N : List Note) :
    ((delivered N).map (·.frame.packetId)).Sublist (opened N) :=
  (List.filter_sublist.map _).trans (map_copies_sublist_opened N)

namespace Broker

variable {settings : BrokerSettings} {J N : List Note} {b : Broker} {bytes : Bytes}
  {direction : Direction} {flags : UInt32} {packet : Packet}

/-! ## copying a packet -/

/-- Everybody gets one copy, in order. -/
theorem map_client_copies (b : Broker) (bytes : Bytes) (direction : Direction) (flags : UInt32)
    (observers : List Client) :
    (copies (b.copyNotes bytes direction flags observers)).map (·.client) = observers := by
  induction observers generalizing b with
  | nil => rfl
  | cons c cs ih => exact congrArg (c :: ·) (ih (b.notify bytes direction flags c))

/-- The copy is of the packet as it came. -/
theorem frame_of_mem_copies {observers : List Client} {x : Copy}
    (hx : x ∈ copies (b.copyNotes bytes direction flags observers)) :
    x.frame = { op := .deliver, direction, packetId := x.frame.packetId
                interestId := x.client.interest.id, hitCount := 0, packetFlags := flags
                packet := bytes } := by
  obtain ⟨b', c, _, hn⟩ := exists_of_mem_foldNotes (mem_copies.mp hx)
  have hnote := List.mem_singleton.mp hn
  injection hnote with hclient hframe _
  rw [hframe, hclient]
  rfl

/-- A copy that could be queued is remembered behind those from before. -/
theorem correlations_notify {client : Client}
    (hnew : ∀ x ∈ delivered (b.notifyNotes bytes direction flags client),
      ∀ c ∈ b.correlations, c.packetId ≠ x.frame.packetId) :
    (b.notify bytes direction flags client).correlations =
      b.correlations ++
        (delivered (b.notifyNotes bytes direction flags client)).map (·.owed b.now) := by
  unfold notifyNotes at hnew ⊢
  unfold notify
  dsimp only at hnew ⊢
  cases hs : b.drawn.trySend client.ext (b.copyFrame bytes direction flags client) with
  | none => simp [delivered, copies, Note.copy?, drawn]
  | some sent =>
      have hcopies : sent.correlations = b.correlations := (carried_of_trySend hs).correlations
      have hone : delivered
          [.copied client (b.copyFrame bytes direction flags client) (some sent).isSome] =
          [⟨client, b.copyFrame bytes direction flags client, true⟩] := rfl
      rw [hs, hone] at hnew
      have hadded : (sent.addCorrelation (b.copyOwed direction flags client)).correlations =
          b.correlations ++ [b.copyOwed direction flags client] := by
        unfold addCorrelation
        rw [hcopies]
        refine congrArg (· ++ _) (List.filter_eq_self.mpr fun c hc => ?_)
        exact decide_eq_true (hnew _ List.mem_cons_self c hc)
      rw [hone]
      exact hadded

/-- As long as no id is used twice, all copies that could be queued are remembered. -/
theorem correlations_foldl_notify {observers : List Client}
    (hnew : ∀ x ∈ delivered (b.copyNotes bytes direction flags observers),
      ∀ c ∈ b.correlations, c.packetId ≠ x.frame.packetId)
    (hdistinct : ((delivered (b.copyNotes bytes direction flags observers)).map
      (·.frame.packetId)).Nodup) :
    (observers.foldl (fun b c => b.notify bytes direction flags c) b).correlations =
      b.correlations ++
        (delivered (b.copyNotes bytes direction flags observers)).map (·.owed b.now) := by
  induction observers generalizing b with
  | nil => exact (List.append_nil _).symm
  | cons c cs ih =>
      have hnotes : b.copyNotes bytes direction flags (c :: cs) =
          b.notifyNotes bytes direction flags c ++
            (b.notify bytes direction flags c).copyNotes bytes direction flags cs := rfl
      have hnow : (b.notify bytes direction flags c).now = b.now := (told_notify _ _ _ _ _).now
      rw [hnotes, delivered_append] at hnew hdistinct ⊢
      rw [List.map_append] at hdistinct
      obtain ⟨_, hrest, hapart⟩ := List.nodup_append.mp hdistinct
      have hfirst := correlations_notify fun x hx => hnew x (List.mem_append_left _ hx)
      rw [List.foldl_cons, ih ?_ hrest, hfirst, hnow, List.map_append, List.append_assoc]
      intro x hx d hd
      rw [hfirst, List.mem_append] at hd
      cases hd with
      | inl hold => exact hnew x (List.mem_append_right _ hx) d hold
      | inr hhere =>
          obtain ⟨y, hy, rfl⟩ := List.mem_map.mp hhere
          exact hapart _ (List.mem_map_of_mem hy) _ (List.mem_map_of_mem hx)

/-! ## handing in a packet -/

/-- Behind the copies there are only notes of the chain that the packet starts. -/
theorem notes_submit (hp : Packet.decode b.settings.decodeMode bytes = .ok packet)
    (direction : Direction) (flags : UInt32) :
    ∃ M, b.notes (.submit bytes direction flags) =
        b.copyNotes bytes direction flags (b.observersOf packet direction) ++ M ∧
      ∀ n ∈ M, n.isAside = false := by
  rw [notes, submitNotes_eq hp]
  split
  · exact ⟨[], (List.append_nil _).symm, by simp⟩
  · exact ⟨_, rfl, aside_startNotes _ _ _ _ _ _⟩

theorem copies_submit (hp : Packet.decode b.settings.decodeMode bytes = .ok packet)
    (direction : Direction) (flags : UInt32) :
    copies (b.notes (.submit bytes direction flags)) =
      copies (b.copyNotes bytes direction flags (b.observersOf packet direction)) := by
  obtain ⟨M, hnotes, hM⟩ := notes_submit hp direction flags
  rw [hnotes, copies_append, copies_of_spared fun n hn => n.sparesCopies_of_aside (hM n hn),
    List.append_nil]

/-- The chain that a packet starts leaves the remembered copies alone. -/
theorem correlations_submit (hp : Packet.decode b.settings.decodeMode bytes = .ok packet)
    (direction : Direction) (flags : UInt32) :
    (b.submit bytes direction flags).2.correlations =
      (b.copied bytes packet direction flags).correlations := by
  rw [submit_eq hp]
  split
  · rfl
  · exact (carried_drive _ _ _).correlations

/-- What handing in a packet does for the observers: those that want it as it came get one copy
each, and the copies that could be queued are remembered. -/
structure Observed (b : Broker) (bytes : Bytes) (direction : Direction) (flags : UInt32)
    (packet : Packet) : Prop where
  observers : (copies (b.notes (.submit bytes direction flags))).map (·.client.subscription) =
    (b.registry.inLine packet direction).filter (!·.interest.isBlocking)
  frames : ∀ x ∈ copies (b.notes (.submit bytes direction flags)),
    x.frame = { op := .deliver, direction, packetId := x.frame.packetId
                interestId := x.client.interest.id, hitCount := 0, packetFlags := flags
                packet := bytes }
  remembered : (b.step (.submit bytes direction flags)).nextId ≤ UInt64.size →
    (b.step (.submit bytes direction flags)).correlations =
      b.correlations ++
        (delivered (b.notes (.submit bytes direction flags))).map (·.owed b.now)

/-- No copy that is remembered has an id that is given out later. -/
theorem Run.ne_of_opened (h : Run settings J b) (hdistinct : (opened (J ++ N)).Nodup)
    {c : Correlation} (hc : c ∈ b.correlations) {id : UInt64} (hid : id ∈ opened N) :
    c.packetId ≠ id := by
  obtain ⟨x, hx, howed⟩ := h.owed c hc
  have hbefore : c.packetId ∈ opened J := by
    rw [howed]
    exact (map_delivered_sublist_opened J).subset (List.mem_map_of_mem hx)
  rw [opened_append] at hdistinct
  exact (List.nodup_append.mp hdistinct).2.2 _ hbefore _ hid

theorem Run.observed (h : Run settings J b)
    (hp : Packet.decode settings.decodeMode bytes = .ok packet) (direction : Direction)
    (flags : UInt32) : b.Observed bytes direction flags packet := by
  rw [← h.settings_eq] at hp
  have hcopies := copies_submit hp direction flags
  constructor
  · have hclients := congrArg (List.map Client.subscription)
      (map_client_copies b bytes direction flags (b.observersOf packet direction))
    rw [hcopies]
    rw [List.map_map] at hclients
    refine hclients.trans ?_
    rw [← Registry.matching_map_subscription h.filed, List.filter_map]
    rfl
  · rw [hcopies]
    exact fun x hx => frame_of_mem_copies hx
  · intro hsmall
    have hdelivered : delivered (b.notes (.submit bytes direction flags)) =
        delivered (b.copyNotes bytes direction flags (b.observersOf packet direction)) := by
      rw [delivered, hcopies]
      rfl
    have hdistinct := (h.step (.submit bytes direction flags)).nodup_opened hsmall
    have hopened : opened (.happened (.submit bytes direction flags) ::
        b.notes (.submit bytes direction flags)) =
          opened (b.notes (.submit bytes direction flags)) := rfl
    have hhere := map_delivered_sublist_opened (b.notes (.submit bytes direction flags))
    rw [hdelivered] at hhere ⊢
    refine (correlations_submit hp direction flags).trans (correlations_foldl_notify ?_ ?_)
    · intro x hx c hc
      refine h.ne_of_opened hdistinct hc ?_
      rw [hopened]
      exact hhere.subset (List.mem_map_of_mem hx)
    · rw [opened_append, hopened] at hdistinct
      exact (List.nodup_append.mp hdistinct).2.1.sublist hhere

/-- Nothing but a packet that is handed in, and decodes, is copied. -/
theorem copies_notes {e : Event} (he : ∀ bytes direction flags packet,
    e = .submit bytes direction flags → Packet.decode b.settings.decodeMode bytes ≠ .ok packet) :
    copies (b.notes e) = [] := by
  refine List.eq_nil_iff_forall_not_mem.mpr fun x hx => ?_
  have hcopied : .copied x.client x.frame x.sent ∈ b.notes e := mem_copies.mp hx
  obtain ⟨bytes, direction, flags, rfl⟩ | ⟨ext, r, rfl⟩ | ⟨bytes, direction, flags, rfl⟩ :=
    aside_notes hcopied rfl
  · cases b.received bytes direction flags with
    | refused _ _ hnotes =>
        rw [notes, hnotes] at hcopied
        cases hcopied
    | passes hp | starts hp => exact he bytes direction flags _ rfl hp
  · cases b.answered ext r with
    | rejected _ hnotes =>
        rw [notes, hnotes] at hcopied
        cases hcopied
    | held _ _ _ _ _ hnotes =>
        rw [notes, hnotes] at hcopied
        cases aside_applyNotes _ _ _ _ _ hcopied
    | owned _ _ _ _ _ hnotes =>
        rw [notes, hnotes, copies_redeemNotes] at hx
        cases hx
  · rw [notes, injectNotes] at hcopied
    split at hcopied
    · cases hcopied
    · cases sparesCopies_enqueueNotes _ _ _ _ _ _ hcopied

/-! ## answers -/

/-- A note about an answer stands where it should: an answer is taken when the client that got the
copy gives it, for the interest of the copy; and a packet is sent in place of a copy directly
behind the answer that brings it. -/
def Redeems (p : List Note) : Note → Prop
  | .redeemed copy d =>
      (∃ q, p = q ++ [.happened (.respond copy.ext ⟨copy.packetId, copy.interestId, d⟩)]) ∧
        ∃ x ∈ delivered p, copy = x.owed copy.created
  | .injected out source => source = "fire_and_forget" →
      ∃ q copy d direction, p = q ++ [.redeemed copy d] ∧
        d.packet? = some (out.bytes, direction) ∧
        out.direction = direction.orElse copy.direction ∧ out.flags = copy.flags
  | _ => True

theorem redeems_of_aside {n : Note} (h : n.isAside = false) (p : List Note) : Redeems p n := by
  cases n with
  | copied | redeemed | injected => cases h
  | happened | started | directed | handed | ended | dropped => trivial

/-- Whatever an answer for a copy brings is sent directly behind it. -/
theorem redeems_redeemNotes {p : List Note} {c : Correlation} {d : Directive}
    (hredeemed : Redeems p (.redeemed c d)) (b : Broker) :
    Lawful (fun q => Redeems (p ++ q)) (b.redeemNotes c d) := by
  have hfirst : Lawful (fun q => Redeems (p ++ q)) [.redeemed c d] :=
    lawful_singleton (by rwa [List.append_nil])
  have hbrought : ∀ (b : Broker) bytes direction, d.packet? = some (bytes, direction) →
      Lawful (fun q => Redeems (p ++ q)) (.redeemed c d :: b.enqueueNotes bytes
        (direction.orElse c.direction) c.flags "fire_and_forget") := by
    intro b bytes direction hd
    unfold enqueueNotes
    dsimp only
    split
    · refine lawful_concat (J := [.redeemed c d]).mpr ⟨hfirst, fun _ => ?_⟩
      exact ⟨p, c, d, direction, rfl, hd, rfl, rfl⟩
    · exact hfirst
  unfold redeemNotes
  cases d with
  | forward packet direction => exact hbrought _ packet direction rfl
  | finish packet direction => exact hbrought _ packet direction rfl
  | pass => exact hfirst
  | cancel => exact hfirst

/-- The answer that is taken for a copy is the one that has come. -/
theorem Run.redeems_respond (h : Run settings J b) (ext : String) (r : Response) :
    Lawful (fun q => Redeems (J ++ [.happened (.respond ext r)] ++ q)) (b.respondNotes ext r) := by
  cases b.answered ext r with
  | rejected _ hnotes =>
      rw [hnotes]
      exact lawful_nil _
  | held _ _ _ _ _ hnotes =>
      rw [hnotes]
      exact lawful_of_forall fun _ n hn => redeems_of_aside (aside_applyNotes _ _ _ _ n hn) _
  | @owned c _ hc hsender hasked _ hnotes =>
      have hid : c.packetId = r.packetId := correlation?_eq_some hc
      obtain ⟨x, hx, howed⟩ := h.owed c (List.mem_of_find?_eq_some hc)
      have hredeemed : Redeems (J ++ [.happened (.respond ext r)]) (.redeemed c r.directive) := by
        refine ⟨⟨J, ?_⟩, x, ?_, howed⟩
        · rw [hid, hsender, hasked]
        · rw [delivered_append]
          exact List.mem_append_left _ hx
      rw [hnotes]
      exact redeems_redeemNotes hredeemed b

/-- What an extension sends of its own is no answer. -/
theorem redeems_injectNotes (b : Broker) (bytes : Bytes) (direction : Direction) (flags : UInt32)
    (p : List Note) : ∀ n ∈ b.injectNotes bytes direction flags, Redeems p n := by
  intro n hn
  unfold injectNotes at hn
  split at hn
  · cases hn
  · unfold enqueueNotes at hn
    dsimp only at hn
    split at hn
    · rw [List.mem_singleton.mp hn]
      intro hsource
      exact absurd hsource (by decide)
    · cases hn

/-- No answer is told of while a packet is handed in. -/
theorem redeems_submitNotes (b : Broker) (bytes : Bytes) (direction : Direction) (flags : UInt32)
    (p : List Note) : ∀ n ∈ b.submitNotes bytes direction flags, Redeems p n := by
  have hcopies : ∀ observers, ∀ n ∈ b.copyNotes bytes direction flags observers, Redeems p n := by
    intro observers n hn
    obtain ⟨_, _, _, hn⟩ := exists_of_mem_foldNotes hn
    rw [List.mem_singleton.mp hn]
    trivial
  intro n hn
  cases b.received bytes direction flags with
  | refused _ _ hnotes =>
      rw [hnotes] at hn
      cases hn
  | passes _ _ _ hnotes =>
      rw [hnotes] at hn
      exact hcopies _ n hn
  | starts _ _ _ hnotes =>
      rw [hnotes, List.mem_append] at hn
      cases hn with
      | inl hcopy => exact hcopies _ n hcopy
      | inr hrest => exact redeems_of_aside (aside_startNotes _ _ _ _ _ _ n hrest) p

/-- What an event adds to the journal. -/
theorem Run.redeems_notes (h : Run settings J b) (e : Event) :
    Lawful (fun q => Redeems (J ++ [.happened e] ++ q)) (b.notes e) := by
  cases e with
  | respond ext r => exact h.redeems_respond ext r
  | inject bytes direction flags =>
      exact lawful_of_forall fun _ => redeems_injectNotes b bytes direction flags _
  | submit bytes direction flags =>
      exact lawful_of_forall fun _ => redeems_submitNotes b bytes direction flags _
  | _ =>
      refine lawful_of_forall fun _ n hn => redeems_of_aside ?_ _
      cases haside : n.isAside with
      | false => rfl
      | true =>
          obtain ⟨_, _, _, he⟩ | ⟨_, _, he⟩ | ⟨_, _, _, he⟩ := aside_notes hn haside
          · cases he
          · cases he
          · cases he

/-- Every answer that was ever taken for a copy was due. -/
theorem Run.redeems (h : Run settings J b) : Lawful Redeems J := by
  induction h with
  | new => exact lawful_nil _
  | @step J b e hrun ih =>
      have hhappened : Lawful Redeems (J ++ [.happened e]) := lawful_concat.mpr ⟨ih, trivial⟩
      rw [List.append_cons]
      exact lawful_append.mpr ⟨hhappened, hrun.redeems_notes e⟩
  | reordered _ _ ih => exact ih

/-- No copy is answered twice. -/
theorem Run.redeemed_once (h : Run settings J b) {id : UInt64} (honce : (opened J).count id ≤ 1) :
    (redemptions id J).length ≤ 1 := by
  have hcopies : ((delivered J).filter (·.frame.packetId = id)).length =
      ((delivered J).map (·.frame.packetId)).count id := by
    rw [List.count_eq_countP, List.countP_map, List.countP_eq_length_filter]
    rfl
  calc (redemptions id J).length
    _ ≤ ((delivered J).filter (·.frame.packetId = id)).length := h.redemptions_le id
    _ = ((delivered J).map (·.frame.packetId)).count id := hcopies
    _ ≤ (opened J).count id := (map_delivered_sublist_opened J).count_le id
    _ ≤ 1 := honce

/-- An answer that brings no packet sends none. -/
theorem injected_of_no_packet {r : Response} (hr : r.directive.packet? = none) (b : Broker)
    (ext : String) : (b.respond ext r).2.injected = b.injected := by
  cases injected_respond b ext r with
  | inl hsame => exact hsame
  | inr hsent =>
      obtain ⟨_, _, _, _, _, he, _, _, _, _, hd, _⟩ := hsent
      cases he
      rw [hr] at hd
      cases hd

/-- What is copied over a run, and what is answered for the copies. -/
structure ObservedOnce (settings : BrokerSettings) (J : List Note) (b : Broker) : Prop where
  /-- A packet that is handed in is copied to those who observe it. -/
  submitted : ∀ bytes direction flags packet, Packet.decode settings.decodeMode bytes = .ok packet →
    b.Observed bytes direction flags packet
  /-- Nothing is copied otherwise, whatever becomes of the packet in its chain. -/
  otherwise : ∀ e, (∀ bytes direction flags packet, e = .submit bytes direction flags →
    Packet.decode settings.decodeMode bytes ≠ .ok packet) → copies (b.notes e) = []
  /-- The queues get what is told, and all of it, unless there is no room. -/
  fed : ∀ e, ¬e.IsOutside → Fed (b.notes e) (b.readied e) (b.step e)
  /-- No id is given out twice until 64 bits are too few. -/
  distinct : b.nextId ≤ UInt64.size → ∀ id, (opened J).count id ≤ 1
  redeemed : Lawful Redeems J
  once : ∀ id, (opened J).count id ≤ 1 → (redemptions id J).length ≤ 1
  /-- `pass` and `cancel` send nothing. -/
  quiet : ∀ ext r, r.directive.packet? = none → (b.respond ext r).2.injected = b.injected

/-- **Observers get one copy each, and each copy is answered once at most.** -/
theorem Run.observed_once (h : Run settings J b) : ObservedOnce settings J b := by
  refine ⟨fun bytes direction flags packet hp => h.observed hp direction flags, fun e he => ?_,
    fun e => fed_step h.reachable.tended.sound e,
    fun hsmall => List.nodup_iff_count_le_one.mp (h.nodup_opened hsmall), h.redeems,
    fun _ => h.redeemed_once, fun ext r hr => injected_of_no_packet hr b ext⟩
  rw [← h.settings_eq] at he
  exact copies_notes he

/-- Two packets are handed in, each for two observers and somebody who holds it.  The queue of one
observer has room for one copy; the other one answers for its second copy with a packet, and again
in vain. -/
theorem observed_once_past_a_full_link :
    ∃ J b, Run {} J b ∧
    (copies J).map (fun x => (x.client.ext, x.frame.packetId, x.sent)) =
      [("full", 1, true), ("observer", 2, true), ("full", 4, false), ("observer", 5, true)] ∧
    b.correlations.map (·.packetId) = [1, 2] ∧
    b.injected.items = [⟨7, [2, 1, 0, 0, 0], .serverToClient, 3, 0⟩] ∧
    (opened J).count 5 ≤ 1 ∧ (redemptions 5 J).length ≤ 1 ∧ ObservedOnce {} J b := by
  let text : Interest := { id := 1, kind := .net .genericText }
  let copy : Interest := { text with blocking := .sendAndForget }
  let answer : Event :=
    .respond "observer" ⟨5, 1, .forward [2, 1, 0, 0, 0] .serverToClient⟩
  let run : List Event := [
    .register "full" [copy] 1, .register "observer" [copy] 4, .register "holder" [text] 4,
    .submit [2, 0, 0, 0, 0] .clientToServer 3, .submit [2, 0, 0, 0, 0] .clientToServer 3,
    answer, answer]
  have h : Run {} _ (run.foldl Broker.step (.new {})) := Run.new.foldl run
  have honce := h.observed_once
  have hdistinct := honce.distinct (by cbv) 5
  exact ⟨_, _, h, by cbv, by cbv, by cbv, hdistinct, honce.once 5 hdistinct, honce⟩

end Broker

end Intercept
