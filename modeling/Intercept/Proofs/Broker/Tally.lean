import Intercept.Proofs.Broker.Roster

/-!
# Intercept.Proofs.Broker.Tally

What is counted is what the journal tells.

```
n.counted?            the counter that the note n goes under, and its labels
tallied key J         how many notes of J go under key
b.tally key           the value of the counter, which wraps
Tallies N b b'        the counts have grown from b to b' as the notes N say
```

Each function that counts is followed by its notes, so that a move makes
`Tallies` true (`tallies_move`), and a counter is the number of its notes in
64 bits (`Run.tally_eq`).  Refusals are not in the journal, and their two
counters are left out.  The number of connected extensions goes by the
registry (`Run.connected_eq`).
-/

namespace Intercept

/-- Whether what a counter counts is in the journal. -/
def Counter.isNoted : Counter → Bool
  | rejectedDirectives | decodeErrors => false
  | _ => true

/-- The counter that a note goes under, and its labels. -/
def Note.counted? : Note → Option (Counter × Labels)
  | started _ => some (.chainsStarted, [])
  | directed _ cause d => some (cause.counter, cause.labels d)
  | ended _ outcome => some (.chainOutcomes, [("outcome", outcome.name)])
  | dropped _ => some (.chainOutcomes, [("outcome", "abandoned")])
  | copied _ _ true => some (.observerDeliveries, [])
  | redeemed _ d => some (.directives, [("op", d.name)])
  | injected _ source => some (.injectedPackets, [("source", source)])
  | copied _ _ false | happened _ | handed .. => none

/-- Whether a note ends a chain, whose duration is then observed. -/
def Note.ends : Note → Bool
  | ended .. => true
  | _ => false

/-- How many notes go under a counter. -/
def tallied (key : Counter × Labels) (N : List Note) : Nat := N.countP (·.counted? = some key)

theorem tallied_append (key : Counter × Labels) (N N' : List Note) :
    tallied key (N ++ N') = tallied key N + tallied key N' := List.countP_append

theorem tallied_singleton (key : Counter × Labels) (n : Note) :
    tallied key [n] = if n.counted? = some key then 1 else 0 := by
  simp [tallied, List.countP_cons]

/-- Notes that go under no counter are in no tally. -/
theorem tallied_of_uncounted {N : List Note} (h : ∀ n ∈ N, n.counted? = none)
    (key : Counter × Labels) : tallied key N = 0 := by
  refine List.countP_eq_zero.mpr fun n hn => ?_
  rw [h n hn]
  simp

theorem Note.ends_of_uncounted {n : Note} (h : n.counted? = none) : n.ends = false := by
  cases n with
  | ended => cases h
  | _ => rfl

/-- One label or none is in order. -/
theorem Labels.ofList_labels (d : Directive) (cause : Cause) :
    Labels.ofList (cause.labels d) = cause.labels d := by
  cases cause with
  | answer => exact List.mergeSort_singleton _
  | timeout => exact List.mergeSort_nil
  | disconnect => exact List.mergeSort_nil

namespace Broker

variable {settings : BrokerSettings} {J N N' : List Note} {b b' b'' : Broker}

/-! ## counters -/

/-- The value of a counter. -/
def tally (b : Broker) (key : Counter × Labels) : UInt64 := b.metrics.counters.get 0 key

/-- Counting goes to the counter of these labels, in any order, and to no other. -/
theorem tally_count (b : Broker) (c : Counter) (labels : List (String × String))
    (key : Counter × Labels) :
    (b.count c labels).tally key =
      b.tally key + if (c, Labels.ofList labels) = key then 1 else 0 := by
  have hget : (b.count c labels).tally key =
      if (c, Labels.ofList labels) = key then b.tally (c, Labels.ofList labels) + 1
        else b.tally key := Tally.get_adjust _ _ _ _ _
  rw [hget]
  by_cases hkey : (c, Labels.ofList labels) = key
  · rw [if_pos hkey, if_pos hkey, hkey]
  · rw [if_neg hkey, if_neg hkey, UInt64.add_zero]

/-- The counts have grown from one state to the other as the notes say. -/
structure Tallies (N : List Note) (b b' : Broker) : Prop where
  counters : ∀ key, key.1.isNoted = true →
    b'.tally key = b.tally key + UInt64.ofNat (tallied key N)
  durations : (b'.metrics.durations []).count =
    (b.metrics.durations []).count + UInt64.ofNat (N.countP Note.ends)

/-- Counts grow by what is told first and by what is told then. -/
theorem Tallies.append (h : Tallies N b b') (h' : Tallies N' b' b'') :
    Tallies (N ++ N') b b'' := by
  constructor
  · intro key hkey
    rw [h'.counters key hkey, h.counters key hkey, tallied_append, UInt64.ofNat_add,
      UInt64.add_assoc]
  · rw [h'.durations, h.durations, List.countP_append, UInt64.ofNat_add, UInt64.add_assoc]

/-- What counts nothing. -/
theorem tallies_still (hmetrics : b'.metrics = b.metrics) (hN : ∀ n ∈ N, n.counted? = none) :
    Tallies N b b' := by
  constructor
  · intro key _
    rw [tally, hmetrics, tallied_of_uncounted hN]
    exact (UInt64.add_zero _).symm
  · have hnone : N.countP Note.ends = 0 := List.countP_eq_zero.mpr fun n hn => by
      rw [Note.ends_of_uncounted (hN n hn)]
      exact Bool.false_ne_true
    rw [hmetrics, hnone]
    exact (UInt64.add_zero _).symm

/-- What counts for a note. -/
theorem tallies_count {n : Note} (c : Counter) (labels : List (String × String))
    (hmetrics : b'.metrics = (b.count c labels).metrics)
    (hn : n.counted? = some (c, Labels.ofList labels)) (hends : n.ends = false) :
    Tallies [n] b b' := by
  constructor
  · intro key _
    have hcount := tally_count b c labels key
    rw [tally, ← hmetrics] at hcount
    rw [tally, hcount, tallied_singleton, hn]
    by_cases hkey : (c, Labels.ofList labels) = key
    · rw [if_pos hkey, if_pos (congrArg some hkey)]
      rfl
    · rw [if_neg hkey, if_neg fun h => hkey (Option.some.inj h)]
      rfl
  · have hsame : (b'.metrics.durations []).count = (b.metrics.durations []).count := by
      rw [hmetrics]
      rfl
    rw [hsame, List.countP_singleton, hends]
    exact (UInt64.add_zero _).symm

/-- An outcome is counted once, and its duration observed once. -/
theorem tallies_conclude (b : Broker) (a : ActiveChain) (o : Outcome) :
    Tallies [.ended a.chain o] b (b.conclude a o) := by
  have hmetrics : (b.conclude a o).metrics =
      (b.metrics.add .chainOutcomes [("outcome", o.name)] 1).observe []
        ((b.now - a.started) * 1000) := by
    unfold conclude
    cases a.awaited <;> rfl
  constructor
  · intro key _
    have hcount := tally_count b .chainOutcomes [("outcome", o.name)] key
    have hsame : (b.conclude a o).tally key =
        (b.count .chainOutcomes [("outcome", o.name)]).tally key := by
      rw [tally, hmetrics]
      rfl
    have hlabels : Labels.ofList [("outcome", o.name)] = [("outcome", o.name)] :=
      List.mergeSort_singleton _
    rw [hlabels] at hcount
    rw [hsame, hcount, tallied_singleton, Note.counted?]
    by_cases hkey : (Counter.chainOutcomes, [("outcome", o.name)]) = key
    · rw [if_pos hkey, if_pos (congrArg some hkey)]
      rfl
    · rw [if_neg hkey, if_neg fun h => hkey (Option.some.inj h)]
      rfl
  · have hobserve : (b.conclude a o).metrics.durations [] =
        (b.metrics.durations []).observe ((b.now - a.started) * 1000) := by
      rw [hmetrics]
      exact (Tally.get_adjust _ _ _ _ _).trans (if_pos rfl)
    rw [hobserve]
    rfl

/-- A frame that is sent is not counted. -/
theorem metrics_of_trySend {sent : Broker} {ext : String} {frame : Frame}
    (h : b.trySend ext frame = some sent) : sent.metrics = b.metrics := by
  obtain ⟨link, queue, _, _, rfl⟩ := trySend_eq_some h
  rfl

/-- A copy is counted if and only if it could be queued. -/
theorem tallies_notify (b : Broker) (bytes : Bytes) (direction : Direction) (flags : UInt32)
    (client : Client) :
    Tallies (b.notifyNotes bytes direction flags client) b
      (b.notify bytes direction flags client) := by
  unfold notifyNotes notify
  dsimp only
  cases hs : b.drawn.trySend client.ext (b.copyFrame bytes direction flags client) with
  | none => exact tallies_still rfl fun n hn => by rw [List.mem_singleton.mp hn]; rfl
  | some sent =>
      have hsent : sent.metrics = b.drawn.metrics := metrics_of_trySend hs
      refine tallies_count .observerDeliveries [] ?_ ?_ rfl
      · simp only [count, addCorrelation, hsent, drawn]
      · exact congrArg (fun labels => some (Counter.observerDeliveries, labels))
          List.mergeSort_nil.symm

/-- A packet is counted if and only if it got on the outbound path. -/
theorem tallies_enqueue (b : Broker) (bytes : Bytes) (direction : Direction) (flags : UInt32)
    (source : String) :
    Tallies (b.enqueueNotes bytes direction flags source) b
      (b.enqueue bytes direction flags source).2 := by
  unfold enqueueNotes enqueue
  dsimp only
  cases hpush : b.injected.push? ⟨b.freshId, bytes, direction, flags, 0⟩ with
  | none => exact tallies_still rfl (by simp)
  | some injected =>
      refine tallies_count .injectedPackets [("source", source)] rfl ?_ rfl
      exact congrArg (fun labels => some (Counter.injectedPackets, labels))
        (List.mergeSort_singleton _).symm

/-- An answer for a copy is counted by its name, and the packet that it brings by its source. -/
theorem tallies_redeem (b : Broker) (c : Correlation) (d : Directive) :
    Tallies (b.redeemNotes c d) b (b.redeem c d).2 := by
  have htaken : Tallies [.redeemed c d] b
      ((b.dropCorrelation c.packetId).count .directives [("op", d.name)]) := by
    refine tallies_count .directives [("op", d.name)] rfl ?_ rfl
    exact congrArg (fun labels => some (Counter.directives, labels))
      (List.mergeSort_singleton _).symm
  unfold redeemNotes redeem
  cases d with
  | forward packet direction => exact htaken.append (tallies_enqueue _ _ _ _ _)
  | finish packet direction => exact htaken.append (tallies_enqueue _ _ _ _ _)
  | pass => exact htaken
  | cancel => exact htaken

/-- A directive is counted by its cause. -/
theorem tallies_directed (b : Broker) (c : Chain) (cause : Cause) (d : Directive) :
    Tallies [.directed c cause d] b (b.counted d cause) := by
  refine tallies_count cause.counter (cause.labels d) rfl ?_ rfl
  rw [Labels.ofList_labels]
  rfl

/-- A chain that is dropped is counted as abandoned. -/
theorem tallies_dropped (b : Broker) (c : Chain) (id : UInt64) :
    Tallies [.dropped c] b (b.dropAbandoned id) := by
  refine tallies_count .chainOutcomes [("outcome", "abandoned")] rfl ?_ rfl
  exact congrArg (fun labels => some (Counter.chainOutcomes, labels))
    (List.mergeSort_singleton _).symm

/-- What comes from outside counts nothing. -/
theorem metrics_outside {e : Event} (he : e.IsOutside) : (b.step e).metrics = b.metrics := by
  cases e with
  | later | takeFrames | closeLink | takeInjected | closeInjected => rfl
  | _ => cases he

/-- **Every move counts what it notes.** -/
theorem tallies_move {m m' : Moment} (h : Move m m') :
    ∃ N, m'.journal = m.journal ++ N ∧ Tallies N m.broker m'.broker := by
  have hquiet : ∀ (b' : Broker) N, b'.metrics = m.broker.metrics →
      (∀ n ∈ N, n.counted? = none) →
      ∃ N', m.journal ++ N = m.journal ++ N' ∧ Tallies N' m.broker b' :=
    fun b' N hmetrics hN => ⟨N, rfl, tallies_still hmetrics hN⟩
  have hsilent : ∀ b' : Broker, Tallies [] m.broker b' →
      ∃ N, m.journal = m.journal ++ N ∧ Tallies N m.broker b' :=
    fun b' htallies => ⟨[], (List.append_nil _).symm, htallies⟩
  have hstill : ∀ b' : Broker, b'.metrics = m.broker.metrics →
      ∃ N, m.journal = m.journal ++ N ∧ Tallies N m.broker b' :=
    fun b' hmetrics => hsilent b' (tallies_still hmetrics (by simp))
  cases h with
  | happened e => exact hquiet _ _ rfl (by simp [Note.counted?])
  | directed _ _ => exact ⟨_, rfl, tallies_directed _ _ _ _⟩
  | handed hs =>
      have hmetrics := metrics_of_trySend hs
      exact hquiet _ _ hmetrics (by simp [Note.counted?])
  | @missed J b a client hs =>
      have hhanded : Tallies [.handed a.chain client false] b b :=
        tallies_still rfl (by simp [Note.counted?])
      rw [List.append_assoc]
      exact ⟨_, rfl, hhanded.append (tallies_directed b a.chain .disconnect _)⟩
  | finished => exact ⟨_, rfl, tallies_conclude _ _ _⟩
  | cancelled => exact ⟨_, rfl, tallies_conclude _ _ _⟩
  | joined interests capacity _ | left _ =>
      exact hsilent _ ⟨fun _ _ => (UInt64.add_zero _).symm, (UInt64.add_zero _).symm⟩
  | replaced | taken | abandoned | forgot | reordered => exact hstill _ rfl
  | @refused J b counter labels hcounter =>
      refine hsilent _ ⟨fun key hkey => ?_, (UInt64.add_zero _).symm⟩
      have hne : (counter, Labels.ofList labels) ≠ key := by
        rintro rfl
        obtain rfl | rfl := hcounter <;> cases hkey
      rw [tally_count, if_neg hne]
      rfl
  | copied flags _ _ _ => exact ⟨_, rfl, tallies_notify _ _ _ _ _⟩
  | @started J b bytes packet direction flags c next _ _ _ =>
      refine ⟨_, rfl, tallies_count .chainsStarted [] rfl ?_ rfl⟩
      exact congrArg (fun labels => some (Counter.chainsStarted, labels)) List.mergeSort_nil.symm
  | redeemed d _ _ => exact ⟨_, rfl, tallies_redeem _ _ _⟩
  | pushed direction flags _ => exact ⟨_, rfl, tallies_enqueue _ _ _ _ _⟩
  | dropped _ _ => exact ⟨_, rfl, tallies_dropped _ _ _⟩
  | outside he => exact hstill _ (metrics_outside he)

/-- The counts of a broker are those of its journal. -/
theorem Run.tallies (h : Run settings J b) : Tallies J (.new settings) b := by
  refine h.induct (P := fun m => Tallies m.journal (.new settings) m.broker)
    (tallies_still rfl (by simp)) fun m m' hmove hm => ?_
  obtain ⟨N, hJ, htallies⟩ := tallies_move hmove
  rw [hJ]
  exact hm.append htallies

/-- **A counter is the number of its notes**, in 64 bits. -/
theorem Run.tally_eq (h : Run settings J b) {key : Counter × Labels}
    (hkey : key.1.isNoted = true) : b.tally key = UInt64.ofNat (tallied key J) :=
  (h.tallies.counters key hkey).trans (UInt64.zero_add _)

/-- A duration is observed for every chain that ends. -/
theorem Run.durations_eq (h : Run settings J b) :
    (b.metrics.durations []).count = UInt64.ofNat (J.countP Note.ends) :=
  h.tallies.durations.trans (UInt64.zero_add _)

end Broker

/-! ## connected extensions -/

/-- Whoever has a key of its own is taken out alone. -/
theorem perm_cons_filter_ne {α β : Type} [DecidableEq β] {f : α → β} {l : List α}
    (h : (l.map f).Nodup) {a : α} (ha : a ∈ l) : l.Perm (a :: l.filter (f · ≠ f a)) := by
  obtain ⟨before, after, rfl⟩ := List.append_of_mem ha
  rw [List.map_append, List.map_cons, List.nodup_append, List.nodup_cons] at h
  obtain ⟨_, ⟨hafter, _⟩, hcross⟩ := h
  have hkept : ∀ xs : List α, (∀ x ∈ xs, f x ≠ f a) → xs.filter (f · ≠ f a) = xs := by
    intro xs hxs
    rw [List.filter_eq_self]
    intro x hx
    simpa using hxs x hx
  rw [List.filter_append, List.filter_cons_of_neg (by simp), hkept before, hkept after]
  · exact List.perm_middle
  · exact fun x hx he => hafter (List.mem_map.mpr ⟨x, hx, he⟩)
  · exact fun x hx he =>
      hcross (f x) (List.mem_map.mpr ⟨x, hx, rfl⟩) (f a) List.mem_cons_self he

namespace Registry

/-- Removing a name that is not there removes nothing. -/
theorem size_remove_of_none {r : Registry} {ext : String} (h : r.get? ext = none) :
    (r.remove ext).size = r.size := by
  unfold size remove
  rw [List.filter_eq_self.mpr]
  intro g hg
  simpa using List.find?_eq_none.mp h g hg

/-- Under distinct names one registration is taken out. -/
theorem Filed.size_remove {r : Registry} (hr : r.Filed) {ext : String} {g : Registration}
    (h : r.get? ext = some g) : (r.remove ext).size + 1 = r.size := by
  obtain rfl := ext_of_get? h
  exact (perm_cons_filter_ne hr.names (List.mem_of_find?_eq_some h)).length_eq.symm

/-- A registration leaves its name there once. -/
theorem size_register (r : Registry) (ext : String) (is : List Interest) :
    (r.register ext is).size = (r.remove ext).size + 1 := by
  unfold size
  rw [registrations_register, List.length_append]
  rfl

end Registry

namespace Broker

variable {settings : BrokerSettings} {J : List Note} {b : Broker}

theorem connected_countConnected (b : Broker) (n : Int64) :
    (b.countConnected n).metrics.connected [] = b.metrics.connected [] + n :=
  (Tally.get_adjust _ _ _ _ _).trans (if_pos rfl)

/-- An outcome leaves the number of connected extensions alone. -/
theorem connected_conclude (b : Broker) (a : ActiveChain) (o : Outcome) :
    (b.conclude a o).metrics.connected [] = b.metrics.connected [] := by
  unfold conclude
  cases a.awaited <;> rfl

theorem connected_notify (b : Broker) (bytes : Bytes) (direction : Direction) (flags : UInt32)
    (client : Client) :
    (b.notify bytes direction flags client).metrics.connected [] = b.metrics.connected [] := by
  unfold notify
  cases hs : b.drawn.trySend client.ext (b.copyFrame bytes direction flags client) with
  | none => rfl
  | some sent =>
      obtain ⟨link, queue, _, _, rfl⟩ := trySend_eq_some hs
      rfl

theorem connected_enqueue (b : Broker) (bytes : Bytes) (direction : Direction) (flags : UInt32)
    (source : String) :
    (b.enqueue bytes direction flags source).2.metrics.connected [] =
      b.metrics.connected [] := by
  unfold enqueue
  split
  · rfl
  · rfl

theorem connected_redeem (b : Broker) (c : Correlation) (d : Directive) :
    (b.redeem c d).2.metrics.connected [] = b.metrics.connected [] := by
  rw [redeem_eq]
  split
  · exact connected_enqueue _ _ _ _ _
  · rfl

/-- The number of connected extensions is that of the registry. -/
structure Connected (m : Moment) : Prop where
  filed : m.broker.registry.Filed
  size : m.broker.metrics.connected [] = Int64.ofNat m.broker.registry.size

/-- The number of connected extensions follows the registry, move by move. -/
theorem Connected.move {m m' : Moment} (hmove : Move m m') (h : Connected m) : Connected m' := by
  have hsame : ∀ J' b' f', b'.registry = m.broker.registry →
      b'.metrics.connected [] = m.broker.metrics.connected [] → Connected ⟨J', b', f'⟩ := by
    intro J' b' f' hreg hmetrics
    refine ⟨?_, ?_⟩
    · rw [hreg]
      exact h.filed
    · rw [hreg, hmetrics]
      exact h.size
  cases hmove with
  | happened | directed | missed | refused | started | taken | abandoned | forgot | dropped
  | reordered => exact hsame _ _ _ rfl rfl
  | handed hs =>
      refine hsame _ _ _ (carried_of_trySend hs).registry ?_
      exact congrArg (·.connected []) (metrics_of_trySend hs)
  | finished =>
      exact hsame _ _ _ (carried_conclude _ _ _).registry (connected_conclude _ _ _)
  | cancelled =>
      exact hsame _ _ _ (carried_conclude _ _ _).registry (connected_conclude _ _ _)
  | @joined J b ext interests capacity hnone =>
      refine ⟨h.filed.register ext interests, ?_⟩
      have hsize : (b.registry.register ext interests).size = b.registry.size + 1 := by
        rw [Registry.size_register, Registry.size_remove_of_none hnone]
      have hnow : ((b.enrolled ext interests capacity).countConnected 1).registry =
          b.registry.register ext interests := rfl
      dsimp only
      rw [connected_countConnected, hnow, hsize, Int64.ofNat_add]
      exact congrArg (· + 1) h.size
  | @replaced J b ext old interests capacity hold =>
      refine ⟨h.filed.register ext interests, ?_⟩
      have hsize : (b.registry.register ext interests).size = b.registry.size := by
        rw [Registry.size_register, h.filed.size_remove hold]
      exact h.size.trans (congrArg Int64.ofNat hsize.symm)
  | @left J b ext old hold =>
      refine ⟨h.filed.remove ext, ?_⟩
      have hsize : (b.registry.remove ext).size + 1 = b.registry.size := h.filed.size_remove hold
      have hbefore : b.metrics.connected [] = Int64.ofNat b.registry.size := h.size
      refine (connected_countConnected _ _).trans ?_
      dsimp only
      rw [hbefore, ← hsize, Int64.ofNat_add, Int64.add_assoc]
      exact Int64.add_zero _
  | copied flags _ _ _ =>
      exact hsame _ _ _ (told_notify _ _ _ _ _).registry (connected_notify _ _ _ _ _)
  | redeemed d _ _ => exact hsame _ _ _ (posted_redeem _ _ _).registry (connected_redeem _ _ _)
  | pushed direction flags _ =>
      exact hsame _ _ _ (posted_enqueue _ _ _ _ _).registry (connected_enqueue _ _ _ _ _)
  | outside he =>
      refine hsame _ _ _ ?_ (congrArg (·.connected []) (metrics_outside he))
      rename_i J b e
      cases e with
      | later | takeFrames | closeLink | takeInjected | closeInjected => rfl
      | _ => cases he

/-- **The number of connected extensions is the number of registered ones**, in 64 bits. -/
theorem Run.connected_eq (h : Run settings J b) :
    b.metrics.connected [] = Int64.ofNat b.registry.size := by
  have hconnected : Connected ⟨J, b, none⟩ :=
    h.induct ⟨Registry.filed_empty, rfl⟩ fun _ _ hmove hm => Connected.move hmove hm
  exact hconnected.size

end Broker

end Intercept
