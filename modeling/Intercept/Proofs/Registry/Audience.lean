import Intercept.Proofs.Broker.Roster
import Intercept.Proofs.Registry.Buckets

/-!
# Intercept.Proofs.Registry.Audience

Whom a packet is for, over a whole history and without buckets.

```
i.Wants p direction       what an interest asks for, said of the interest alone
r.audience p direction    the registered interests that want the packet, stably sorted
r.InTurn                  registrations stand in the order of their sessions
```

`matching_eq_audience` is the equality for any registry that is filed.  Over a
history (`matching_foldl_changed`) the registrations are those that a plain
table of names would hold, in the order in which they came, and a packet gets
to each interest that wants it through one client: to be found in two buckets
does not make an extension hear twice of what it asked for once.
-/

namespace Intercept

/-- The interest is in packets of this type, or in tanks of this type, that travel this way, and all
its clauses hold. -/
def Interest.Wants (i : Interest) (p : Packet) (direction : Direction) : Prop :=
  (i.kind = .net p.type ∨ p.type = .tankPacket ∧ ∃ t, p.tank? = some t ∧ i.kind = .tank t.type) ∧
    (i.direction = .unspecified ∨ i.direction = direction) ∧ ∀ c ∈ i.predicate, c.eval p = true

/-- A kind covers the packets of its type, or the tanks of its type. -/
theorem InterestKind.covers_iff (k : InterestKind) (p : Packet) : k.covers p = true ↔
    k = .net p.type ∨ p.type = .tankPacket ∧ ∃ t, p.tank? = some t ∧ k = .tank t.type := by
  cases k with
  | net type => simp [InterestKind.covers]
  | tank type => simp [InterestKind.covers, eq_comm (a := type)]

namespace Subscription

/-- A subscription wants what its interest wants. -/
theorem wants_iff (s : Subscription) (p : Packet) (direction : Direction) :
    s.wants p direction = true ↔ s.interest.Wants p direction := by
  simp [wants, Interest.Wants, InterestKind.covers_iff, Interest.accepts, Direction.accepts]

instance (s : Subscription) (p : Packet) (direction : Direction) :
    Decidable (s.interest.Wants p direction) :=
  decidable_of_iff _ (s.wants_iff p direction)

end Subscription

namespace Registry

variable {r : Registry} {p : Packet} {direction : Direction}

/-- The registered interests that want a packet: taken in the order of registration and stably
sorted, the most urgent first. -/
def audience (r : Registry) (p : Packet) (direction : Direction) : List Subscription :=
  (r.subscriptions.filter (·.interest.Wants p direction)).mergeSort Subscription.outranks

/-- Who is in line for a packet is the audience of it. -/
theorem inLine_eq_audience (r : Registry) (p : Packet) (direction : Direction) :
    r.inLine p direction = r.audience p direction := by
  unfold inLine audience
  congr 1
  exact List.filter_congr fun s _ => by simp [← s.wants_iff p direction]

/-- Who is found in the buckets is the audience, in its order. -/
theorem matching_eq_audience (hr : r.Filed) (p : Packet) (direction : Direction) :
    (r.matching p direction).map Client.subscription = r.audience p direction := by
  rw [matching_map_subscription hr, inLine_eq_audience]

/-! ## each of them once -/

/-- A client is found if and only if it is there and wants the packet. -/
theorem Filed.mem_matching_iff (hr : r.Filed) {c : Client} :
    c ∈ r.matching p direction ↔ c ∈ r.clients ∧ c.interest.Wants p direction := by
  obtain ⟨cs, h, _⟩ := hr.held
  rw [h.matching_eq, List.mem_mergeSort, List.mem_filter, Subscription.wants_iff, h.perm.mem_iff]
  rfl

/-- Nobody is found twice. -/
theorem Filed.nodup_matching (hr : r.Filed) (p : Packet) (direction : Direction) :
    (r.matching p direction).Nodup := by
  obtain ⟨cs, h, _⟩ := hr.held
  have hcs : cs.Nodup := h.numbered.imp fun hlt he => Nat.ne_of_lt hlt (congrArg Client.seq he)
  rw [h.matching_eq]
  exact (List.mergeSort_perm _ _).nodup_iff.mpr (hcs.filter _)

/-- No two of the clients that match have one place. -/
theorem Filed.nodup_places (hr : r.Filed) (p : Packet) (direction : Direction) :
    ((r.matching p direction).map r.place).Nodup := by
  refine (hr.nodup_matching p direction).map_on fun c hc d hd hplace => ?_
  exact hr.bijOn_place.injOn (hr.mem_matching_iff.mp hc).1 (hr.mem_matching_iff.mp hd).1 hplace

/-- At a place stands a client that matches if and only if the interest there wants the packet. -/
theorem Filed.exists_matching_iff (hr : r.Filed) {ext : String} {i : Nat} {s : Subscription} :
    (∃ c ∈ r.matching p direction, r.place c = (ext, i) ∧ c.subscription = s) ↔
      ∃ g interest, r.get? ext = some g ∧ g.interests[i]? = some interest ∧
        interest.Wants p direction ∧ s = ⟨ext, g.session, interest⟩ := by
  constructor
  · rintro ⟨c, hc, hplace, rfl⟩
    obtain ⟨hclient, hwants⟩ := hr.mem_matching_iff.mp hc
    obtain ⟨g, hg, hsession, hinterest⟩ := hr.interest_place hclient
    obtain rfl : c.ext = ext := congrArg Prod.fst hplace
    rw [hplace] at hinterest
    refine ⟨g, c.interest, hg, hinterest, hwants, ?_⟩
    rw [← hsession]
    rfl
  · rintro ⟨g, interest, hg, hi, hwants, rfl⟩
    obtain ⟨hlt, _⟩ := List.getElem?_eq_some_iff.mp hi
    obtain ⟨c, hclient, hplace⟩ := hr.bijOn_place.surjOn (a := (ext, i)) ⟨g, hg, hlt⟩
    obtain ⟨g', hg', hsession, hinterest⟩ := hr.interest_place hclient
    obtain rfl : c.ext = ext := congrArg Prod.fst hplace
    rw [hg] at hg'
    cases hg'
    rw [hplace, hi] at hinterest
    cases hinterest
    refine ⟨c, hr.mem_matching_iff.mpr ⟨hclient, hwants⟩, hplace, ?_⟩
    rw [← hsession]
    rfl

/-! ## the order of registration -/

/-- Registrations stand in the order of their sessions, and none is of a session to come. -/
structure InTurn (r : Registry) : Prop where
  sorted : r.registrations.Pairwise (·.session < ·.session)
  bounded : r.Bounded

theorem inTurn_empty : InTurn {} := ⟨List.Pairwise.nil, bounded_empty⟩

/-- Registrations stand in turn when one is taken out. -/
theorem InTurn.remove (h : r.InTurn) (ext : String) : (r.remove ext).InTurn :=
  ⟨h.sorted.sublist List.filter_sublist, h.bounded.remove ext⟩

/-- They do so with a new one, whose number is the next. -/
theorem InTurn.register (h : r.InTurn) (ext : String) (is : List Interest) :
    (r.register ext is).InTurn := by
  refine ⟨?_, h.bounded.register ext is⟩
  rw [registrations_register, List.pairwise_append]
  refine ⟨(h.remove ext).sorted, List.pairwise_singleton _ _, fun g hg g' hg' => ?_⟩
  rw [List.mem_singleton.mp hg']
  exact Nat.lt_succ_of_le ((h.remove ext).bounded g hg)

/-- What registering and removing keep, the registry has after every history. -/
theorem foldl_changed_induct {P : Registry → Prop} (hnew : P {})
    (hregister : ∀ r ext is, P r → P (r.register ext is))
    (hremove : ∀ r ext, P r → P (r.remove ext)) (changes : List Change) :
    P (changes.foldl changed {}) := by
  refine List.foldlRecOn changes changed hnew fun r hr a _ => ?_
  cases a with
  | register ext is => exact hregister r ext is hr
  | unregister ext =>
      rw [changed_unregister]
      split
      · exact hremove r ext hr
      · exact hr
  | unregisterSession ext session =>
      rw [changed_unregisterSession]
      split
      · exact hremove r ext hr
      · exact hr

/-- **A packet gets to whoever wants it, whoever came and went.**  After any history the
registrations are the entries of a plain table of names, in the order in which they came; whoever
matches a packet is found by going through their interests one after another, keeping those that
want it, and sorting them by priority alone; and each place in the list of a registration whose
interest wants the packet is that of one client that matches, whatever bucket it was found in. -/
theorem matching_foldl_changed (changes : List Change) (p : Packet) (direction : Direction) :
    let r := changes.foldl changed {}
    (r.registrations.Pairwise (·.session < ·.session) ∧
      ∀ g, g ∈ r.registrations ↔ (Roll.after changes).entry g.ext = some g) ∧
    (r.matching p direction).map Client.subscription = r.audience p direction ∧
    ((r.matching p direction).map r.place).Nodup ∧
    ∀ ext i s, (∃ c ∈ r.matching p direction, r.place c = (ext, i) ∧ c.subscription = s) ↔
      ∃ g interest, (Roll.after changes).entry ext = some g ∧ g.interests[i]? = some interest ∧
        interest.Wants p direction ∧ s = ⟨ext, g.session, interest⟩ := by
  intro r
  have hfiled : r.Filed := foldl_changed_induct filed_empty (fun _ ext is hr => hr.register ext is)
    (fun _ ext hr => hr.remove ext) changes
  have hturn : r.InTurn := foldl_changed_induct inTurn_empty (fun _ ext is hr => hr.register ext is)
    (fun _ ext hr => hr.remove ext) changes
  have hentry := (agrees_after changes).entry
  refine ⟨⟨hturn.sorted, fun g => ?_⟩, matching_eq_audience hfiled p direction,
    hfiled.nodup_places p direction, fun ext i s => ?_⟩
  · rw [← hentry]
    exact ⟨hfiled.get?_of_mem, List.mem_of_find?_eq_some⟩
  · rw [hfiled.exists_matching_iff, ← hentry]

end Registry

end Intercept
