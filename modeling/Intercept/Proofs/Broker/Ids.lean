import Intercept.Proofs.Broker.Move

/-!
# Intercept.Proofs.Broker.Ids

What ids are given to.

```
opened J        the ids that a journal gives out: to chains, to copies, to packets sent outside any
b.nextId        a number behind all of theirs
```

All ids come from one counter, so the journal gives out the numbers of a
growing list (`Numbered`).  An id has the lowest 64 bits of its number: as long
as no more numbers have been drawn than that, no id is given out twice
(`Run.nodup_opened`).
-/

namespace Intercept

/-- The id that a note gives out. -/
def Note.opened? : Note → Option UInt64
  | started c => some c.id
  | copied _ frame _ => some frame.packetId
  | injected packet _ => some packet.packetId
  | happened _ | directed .. | handed .. | ended .. | dropped _ | redeemed .. => none

/-- The ids that a journal gives out, in order. -/
def opened (J : List Note) : List UInt64 := J.filterMap Note.opened?

@[simp] theorem opened_nil : opened [] = [] := rfl

@[simp] theorem opened_append (J N : List Note) : opened (J ++ N) = opened J ++ opened N :=
  List.filterMap_append

theorem mem_opened {J : List Note} {n : Note} {id : UInt64} (hn : n ∈ J)
    (hid : n.opened? = some id) : id ∈ opened J :=
  List.mem_filterMap.mpr ⟨n, hn, hid⟩

/-- An id that has been given out and is not given out twice is not given out again. -/
theorem not_mem_opened_of_count {p q : List Note} {id : UInt64}
    (h : (opened (p ++ q)).count id ≤ 1) (hp : id ∈ opened p) : id ∉ opened q := by
  have hpos : 0 < (opened p).count id := List.count_pos_iff.mpr hp
  rw [opened_append, List.count_append] at h
  exact List.count_eq_zero.mp (by omega)

/-- An id that is given out once is given out by one note. -/
theorem eq_of_count_opened {J : List Note} {n m : Note} {id : UInt64}
    (h : (opened J).count id ≤ 1) (hn : n ∈ J) (hm : m ∈ J) (hnid : n.opened? = some id)
    (hmid : m.opened? = some id) : n = m := by
  obtain ⟨p, q, rfl⟩ := List.append_of_mem hn
  cases List.mem_append.mp hm with
  | inl hp =>
      exact absurd (mem_opened List.mem_cons_self hnid)
        (not_mem_opened_of_count h (mem_opened hp hmid))
  | inr hq =>
      cases List.mem_cons.mp hq with
      | inl he => exact he.symm
      | inr hq =>
          rw [List.append_cons] at h
          exact absurd (mem_opened hq hmid) (not_mem_opened_of_count h
            (mem_opened (List.mem_append_right p List.mem_cons_self) hnid))

namespace Broker

/-! ## numbers -/

/-- The ids given out are those of a growing list of numbers, and the next one is behind them. -/
def Numbered (m : Moment) : Prop :=
  ∃ ns : List Nat, opened m.journal = ns.map UInt64.ofNat ∧ ns.Pairwise (· < ·) ∧
    ∀ n ∈ ns, n < m.broker.nextId

variable {J N : List Note} {b b' : Broker} {f f' : Option (ActiveChain × Step)}

theorem Numbered.same (h : Numbered ⟨J, b, f⟩) (hN : opened N = []) (hnext : b.nextId ≤ b'.nextId) :
    Numbered ⟨J ++ N, b', f'⟩ := by
  obtain ⟨ns, hopened, hgrow, hbelow⟩ := h
  refine ⟨ns, ?_, hgrow, fun n hn => Nat.lt_of_lt_of_le (hbelow n hn) hnext⟩
  rw [opened_append, hN, List.append_nil]
  exact hopened

theorem Numbered.drawn (h : Numbered ⟨J, b, f⟩) (hN : opened N = [b.freshId])
    (hnext : b'.nextId = b.nextId + 1) : Numbered ⟨J ++ N, b', f'⟩ := by
  obtain ⟨ns, hopened, hgrow, hbelow⟩ := h
  refine ⟨ns ++ [b.nextId], ?_, ?_, fun n hn => ?_⟩
  · rw [opened_append, hN, hopened, List.map_append]
    rfl
  · refine List.pairwise_append.mpr ⟨hgrow, List.pairwise_singleton _ _, fun n hn k hk => ?_⟩
    rw [List.mem_singleton.mp hk]
    exact hbelow n hn
  · change n < b'.nextId
    rw [hnext]
    cases List.mem_append.mp hn with
    | inl hold => exact Nat.lt_succ_of_lt (hbelow n hold)
    | inr hnew => rw [List.mem_singleton.mp hnew]; exact Nat.lt_succ_self _

theorem nextId_notify (b : Broker) (bytes : Bytes) (direction : Direction) (flags : UInt32)
    (client : Client) : (b.notify bytes direction flags client).nextId = b.nextId + 1 := by
  unfold notify
  cases hs : b.drawn.trySend client.ext (b.copyFrame bytes direction flags client) with
  | none => rfl
  | some sent => exact (carried_of_trySend hs).nextId

theorem nextId_enqueue (b : Broker) (bytes : Bytes) (direction : Direction) (flags : UInt32)
    (source : String) : (b.enqueue bytes direction flags source).2.nextId = b.nextId + 1 := by
  unfold enqueue
  split
  · rfl
  · rfl

/-- A packet sent outside any chain has a new id; a refused one uses its id up. -/
theorem Numbered.enqueue (h : Numbered ⟨J, b, none⟩) (bytes : Bytes) (direction : Direction)
    (flags : UInt32) (source : String) :
    Numbered ⟨J ++ b.enqueueNotes bytes direction flags source,
      (b.enqueue bytes direction flags source).2, none⟩ := by
  have hnext := nextId_enqueue b bytes direction flags source
  unfold enqueueNotes
  dsimp only
  split
  · exact h.drawn rfl hnext
  · exact h.same rfl (by rw [hnext]; exact Nat.le_succ _)

theorem Numbered.redeemed (h : Numbered ⟨J, b, none⟩) (c : Correlation) (d : Directive) :
    Numbered ⟨J ++ b.redeemNotes c d, (b.redeem c d).2, none⟩ := by
  have htaken : Numbered ⟨J ++ [.redeemed c d],
      (b.dropCorrelation c.packetId).count .directives [("op", d.name)], none⟩ :=
    h.same rfl (Nat.le_refl _)
  unfold redeemNotes Broker.redeem
  rw [List.append_cons]
  cases d with
  | forward packet direction => exact htaken.enqueue _ _ _ _
  | finish packet direction => exact htaken.enqueue _ _ _ _
  | pass => exact htaken.same rfl (Nat.le_refl _)
  | cancel => exact htaken.same rfl (Nat.le_refl _)

theorem nextId_outside {e : Event} (he : e.IsOutside) : (b.step e).nextId = b.nextId := by
  cases e with
  | later | takeFrames | closeLink | takeInjected | closeInjected => rfl
  | _ => cases he

theorem Numbered.move {m m' : Moment} (hmove : Move m m') (h : Numbered m) : Numbered m' := by
  have hsilent : ∀ (b' : Broker) f', m.broker.nextId = b'.nextId →
      Numbered ⟨m.journal, b', f'⟩ := by
    intro b' f' hnext
    have hsame : Numbered ⟨m.journal ++ [], b', f'⟩ := h.same rfl (Nat.le_of_eq hnext)
    rwa [List.append_nil] at hsame
  cases hmove with
  | happened | directed | dropped => exact h.same rfl (Nat.le_refl _)
  | missed _ =>
      rw [List.append_assoc]
      exact h.same rfl (Nat.le_refl _)
  | handed hs => exact h.same rfl (Nat.le_of_eq (carried_of_trySend hs).nextId.symm)
  | finished => exact h.same rfl (Nat.le_of_eq (carried_conclude _ _ _).nextId.symm)
  | cancelled => exact h.same rfl (Nat.le_of_eq (carried_conclude _ _ _).nextId.symm)
  | joined | replaced | left | refused | taken | abandoned | forgot | reordered =>
      exact hsilent _ _ rfl
  | copied flags _ _ _ => exact h.drawn rfl (nextId_notify _ _ _ _ _)
  | started direction flags _ hc _ =>
      subst hc
      exact h.drawn rfl rfl
  | redeemed d _ _ => exact h.redeemed _ d
  | pushed direction flags _ => exact h.enqueue _ _ _ _
  | outside he => exact hsilent _ _ (nextId_outside he).symm

theorem Run.numbered {settings : BrokerSettings} (h : Run settings J b) : Numbered ⟨J, b, none⟩ :=
  h.induct ⟨[], rfl, List.Pairwise.nil, fun n hn => (by cases hn)⟩ fun _ _ hmove hm =>
    Numbered.move hmove hm

/-- **No id is given out twice** before 64 bits are too few. -/
theorem Run.nodup_opened {settings : BrokerSettings} (h : Run settings J b)
    (hb : b.nextId ≤ UInt64.size) : (opened J).Nodup := by
  obtain ⟨ns, hopened, hgrow, hbelow⟩ := h.numbered
  rw [hopened]
  refine List.pairwise_map.mpr (hgrow.imp_of_mem fun {n k} hn hk hlt heq => ?_)
  have hn := UInt64.toNat_ofNat_of_lt' (Nat.lt_of_lt_of_le (hbelow n hn) hb)
  have hk := UInt64.toNat_ofNat_of_lt' (Nat.lt_of_lt_of_le (hbelow k hk) hb)
  rw [heq, hk] at hn
  omega

end Broker

end Intercept
