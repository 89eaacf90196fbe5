import Intercept.Proofs.Broker.Answer

/-!
# Intercept.Proofs.Broker.Identity

One counter numbers everything.

```
b.uses                the ids of the chains that wait and of the copies that may be answered
Identified J b        what ids are as long as 64 bits are enough
b.LeadsTo b'          some events lead from b to b'
```

The one observation is `count_uses_move`: whatever a move brings into a table
it takes from the counter, so no id is in use more often than it has been
given out (`Run.count_uses_le`).  As no id is given out twice, nothing shares
an id, and what is in use no more never comes back (`Unused.move`).
-/

namespace Intercept.Broker

variable {settings : BrokerSettings} {J N : List Note} {b b' : Broker} {id : UInt64}

/-! ## ids in use -/

/-- The ids of the chains that wait and of the copies that may be answered. -/
def uses (b : Broker) : List UInt64 :=
  b.chains.map (·.chain.id) ++ b.correlations.map (·.packetId)

/-- An id that is not in use is that of no chain. -/
theorem chain?_eq_none_of_not_mem_uses (h : id ∉ b.uses) : b.chain? id = none := by
  cases hc : b.chain? id with
  | none => rfl
  | some a =>
      obtain ⟨hmem, hid⟩ := chain?_eq_some hc
      exact absurd (List.mem_append_left _ (List.mem_map.mpr ⟨a, hmem, hid⟩)) h

theorem correlation?_eq_none_of_not_mem_uses (h : id ∉ b.uses) : b.correlation? id = none := by
  cases hc : b.correlation? id with
  | none => rfl
  | some c =>
      exact absurd (List.mem_append_right _
        (List.mem_map.mpr ⟨c, List.mem_of_find?_eq_some hc, correlation?_eq_some hc⟩)) h

/-- An id that is found in neither table is not in use. -/
theorem not_mem_uses (hchain : b.chain? id = none) (hcopy : b.correlation? id = none) :
    id ∉ b.uses := by
  intro h
  cases List.mem_append.mp h with
  | inl h =>
      obtain ⟨a, ha, hid⟩ := List.mem_map.mp h
      exact chain?_eq_none hchain a ha hid
  | inr h =>
      obtain ⟨c, hc, hid⟩ := List.mem_map.mp h
      simpa [hid] using List.find?_eq_none.mp hcopy c hc

/-- With fewer chains and copies no other ids are in use. -/
theorem sublist_uses (hchains : (b'.chains.map (·.chain.id)).Sublist (b.chains.map (·.chain.id)))
    (hcopies : b'.correlations.Sublist b.correlations) : b'.uses.Sublist b.uses :=
  hchains.append (hcopies.map _)

/-- A new entry for a chain uses its old id. -/
theorem uses_setChain (b : Broker) (a : ActiveChain) : (b.setChain a).uses = b.uses := by
  unfold uses
  rw [ids_setChain]
  rfl

/-- An outcome frees an id. -/
theorem sublist_uses_conclude (b : Broker) (a : ActiveChain) (o : Outcome) :
    (b.conclude a o).uses.Sublist b.uses := by
  refine sublist_uses ?_ ?_
  · rw [chains_conclude]
    exact List.filter_sublist.map _
  · rw [(carried_conclude b a o).correlations]

/-- A new chain uses its id once more. -/
theorem count_uses_addChain (b : Broker) (a : ActiveChain) (id : UInt64) :
    (b.addChain a).uses.count id ≤ b.uses.count id + [a.chain.id].count id := by
  have hrest : ((b.chains.filter (·.chain.id ≠ a.chain.id)).map (·.chain.id)).count id ≤
      (b.chains.map (·.chain.id)).count id := (List.filter_sublist.map _).count_le id
  have hsame : (b.addChain a).correlations = b.correlations := rfl
  have hchains : (b.addChain a).chains.map (·.chain.id) =
      (b.chains.filter (·.chain.id ≠ a.chain.id)).map (·.chain.id) ++ [a.chain.id] :=
    List.map_append
  unfold uses
  rw [hsame, hchains, List.count_append, List.count_append, List.count_append]
  omega

/-- A copy takes its id from the counter, whether or not it is queued. -/
theorem count_uses_notify (b : Broker) (bytes : Bytes) (direction : Direction) (flags : UInt32)
    (client : Client) (id : UInt64) :
    (b.notify bytes direction flags client).uses.count id ≤
      b.uses.count id + [b.freshId].count id := by
  unfold notify
  cases hs : b.drawn.trySend client.ext (b.copyFrame bytes direction flags client) with
  | none => exact Nat.le_add_right _ _
  | some sent =>
      have hchains : sent.chains = b.drawn.chains := chains_of_trySend hs
      have hcopies : sent.correlations = b.drawn.correlations :=
        (carried_of_trySend hs).correlations
      have hrest : ((b.correlations.filter (·.packetId ≠ b.freshId)).map (·.packetId)).count id ≤
          (b.correlations.map (·.packetId)).count id := (List.filter_sublist.map _).count_le id
      have hafter : ((sent.addCorrelation (b.copyOwed direction flags client)).count
          .observerDeliveries []).uses = b.chains.map (·.chain.id) ++
            ((b.correlations.filter (·.packetId ≠ b.freshId)).map (·.packetId) ++ [b.freshId]) := by
        simp only [uses, count, addCorrelation, hchains, hcopies, List.map_append]
        rfl
      dsimp only
      rw [hafter, uses, List.count_append, List.count_append, List.count_append]
      omega

/-- An answer for a copy frees an id. -/
theorem sublist_uses_redeem (b : Broker) (c : Correlation) (d : Directive) :
    (b.redeem c d).2.uses.Sublist b.uses := by
  refine sublist_uses ?_ ?_
  · rw [(posted_redeem b c d).chains]
  · rw [correlations_redeem]
    exact List.filter_sublist

/-- A packet on the outbound path keeps no id in use. -/
theorem uses_enqueue (b : Broker) (bytes : Bytes) (direction : Direction) (flags : UInt32)
    (source : String) : (b.enqueue bytes direction flags source).2.uses = b.uses := by
  unfold uses
  rw [(posted_enqueue b bytes direction flags source).chains, correlations_enqueue]

theorem uses_outside {e : Event} (he : e.IsOutside) : (b.step e).uses = b.uses := by
  unfold uses
  rw [chains_outside he, correlations_outside he]

/-- **Whatever comes into a table has been given its id by the same move.** -/
theorem count_uses_move {m m' : Moment} (h : Move m m') :
    ∃ N, m'.journal = m.journal ++ N ∧
      ∀ id, m'.broker.uses.count id ≤ m.broker.uses.count id + (opened N).count id := by
  have hfewer : ∀ (b' : Broker) N, b'.uses.Sublist m.broker.uses →
      ∃ N', m.journal ++ N = m.journal ++ N' ∧
        ∀ id, b'.uses.count id ≤ m.broker.uses.count id + (opened N').count id :=
    fun b' N hsub => ⟨N, rfl, fun id => Nat.le_add_right_of_le (hsub.count_le id)⟩
  have hsilent : ∀ b' : Broker, b'.uses.Sublist m.broker.uses →
      ∃ N', m.journal = m.journal ++ N' ∧
        ∀ id, b'.uses.count id ≤ m.broker.uses.count id + (opened N').count id := by
    intro b' hsub
    have hnone := hfewer b' [] hsub
    rwa [List.append_nil] at hnone
  cases h with
  | happened | directed => exact hfewer _ _ (List.Sublist.refl _)
  | handed hs =>
      refine hfewer _ _ ?_
      rw [uses_setChain, uses, chains_of_trySend hs, (carried_of_trySend hs).correlations]
      exact List.Sublist.refl _
  | missed _ =>
      rw [List.append_assoc]
      exact hfewer _ _ (List.Sublist.refl _)
  | finished => exact hfewer _ _ (sublist_uses_conclude _ _ _)
  | cancelled => exact hfewer _ _ (sublist_uses_conclude _ _ _)
  | joined | refused | taken => exact hsilent _ (List.Sublist.refl _)
  | replaced | left | forgot =>
      exact hsilent _ (sublist_uses (List.Sublist.refl _) List.filter_sublist)
  | copied flags _ _ _ => exact ⟨_, rfl, count_uses_notify _ _ _ _ _⟩
  | @started J b bytes packet direction flags c next _ hc hnext =>
      have hid : next.2.id = c.id := by
        rw [hnext]
        exact Chain.nextFrom_id _ _
      refine ⟨_, rfl, fun id => ?_⟩
      have hadd := count_uses_addChain b.drawn ⟨next.2, true, b.now, b.now⟩ id
      dsimp only at hadd
      rw [hid] at hadd
      exact hadd
  | abandoned _ =>
      refine hsilent _ ?_
      rw [uses_setChain]
  | redeemed d _ _ => exact hfewer _ _ (sublist_uses_redeem _ _ _)
  | pushed direction flags _ =>
      refine hfewer _ _ ?_
      rw [uses_enqueue]
  | dropped _ _ =>
      exact hfewer _ _ (sublist_uses (List.filter_sublist.map _) (List.Sublist.refl _))
  | outside he =>
      refine hsilent _ ?_
      rw [uses_outside he]
  | @reordered J b chains hp =>
      refine ⟨[], (List.append_nil _).symm, fun id => Nat.le_of_eq ?_⟩
      simp only [uses, List.count_append, (hp.map (·.chain.id)).count_eq, opened_nil,
        List.count_nil, Nat.add_zero]

/-- No id is in use more often than it has been given out. -/
theorem Run.count_uses_le (h : Run settings J b) (id : UInt64) :
    b.uses.count id ≤ (opened J).count id := by
  refine h.induct (P := fun m => m.broker.uses.count id ≤ (opened m.journal).count id)
    (Nat.le_refl _) fun m m' hmove hm => ?_
  obtain ⟨N, hJ, hcount⟩ := count_uses_move hmove
  have hid := hcount id
  rw [hJ, opened_append, List.count_append]
  omega

/-- Every id in use has been given out. -/
theorem Run.mem_opened_of_mem_uses (h : Run settings J b) (hid : id ∈ b.uses) : id ∈ opened J := by
  have hle := h.count_uses_le id
  have hpos : 0 < b.uses.count id := List.count_pos_iff.mpr hid
  exact List.count_pos_iff.mp (by omega)

/-- As long as 64 bits are enough no id is in use twice. -/
theorem Run.nodup_uses (h : Run settings J b) (hb : b.nextId ≤ UInt64.size) : b.uses.Nodup := by
  have honce := List.nodup_iff_count_le_one.mp (h.nodup_opened hb)
  exact List.nodup_iff_count_le_one.mpr fun id => Nat.le_trans (h.count_uses_le id) (honce id)

/-- What has been given out is below the counter. -/
theorem Run.toNat_lt_of_mem_opened (h : Run settings J b) (hb : b.nextId ≤ UInt64.size)
    (hid : id ∈ opened J) : id.toNat < b.nextId := by
  obtain ⟨ns, hopened, _, hbelow⟩ := h.numbered
  rw [hopened] at hid
  obtain ⟨n, hn, rfl⟩ := List.mem_map.mp hid
  have hlt : n < b.nextId := hbelow n hn
  rwa [UInt64.toNat_ofNat_of_lt' (Nat.lt_of_lt_of_le hlt hb)]

/-! ## ids that are in use no more -/

/-- The id has been given out, and nothing has it now. -/
structure Unused (id : UInt64) (m : Moment) : Prop where
  given : id ∈ opened m.journal
  free : id ∉ m.broker.uses

/-- **What is in use no more stays so** as long as no id is given out twice. -/
theorem Unused.move {m m' : Moment} (h : Unused id m) (hmove : Move m m')
    (honce : (opened m'.journal).Nodup) : Unused id m' := by
  obtain ⟨N, hJ, hcount⟩ := count_uses_move hmove
  have hid := hcount id
  rw [hJ] at honce
  have hnot : id ∉ opened N :=
    not_mem_opened_of_count (List.nodup_iff_count_le_one.mp honce id) h.given
  have hfree : m.broker.uses.count id = 0 := List.count_eq_zero.mpr h.free
  have hnew : (opened N).count id = 0 := List.count_eq_zero.mpr hnot
  refine ⟨?_, List.count_eq_zero.mp (by omega)⟩
  rw [hJ, opened_append]
  exact List.mem_append_left _ h.given

/-- What is in use no more does not come back while no id is given out twice. -/
theorem Unused.moves {m m' : Moment} (h : Unused id m) (hmoves : Moves m m')
    (honce : (opened m'.journal).Nodup) : Unused id m' := by
  refine hmoves.induct (P := fun m => (opened m.journal).Nodup → Unused id m) ?_ (fun _ => h) honce
  intro m m' hmove ih honce
  obtain ⟨N, hJ, _⟩ := count_uses_move hmove
  refine (ih ?_).move hmove honce
  rw [hJ, opened_append] at honce
  exact (List.nodup_append.mp honce).1

/-! ## what comes later -/

/-- Some events lead from one state to another. -/
inductive LeadsTo (b : Broker) : Broker → Prop where
  | refl : LeadsTo b b
  | step {b' : Broker} (e : Event) : LeadsTo b b' → LeadsTo b (b'.step e)
  | reordered {b' : Broker} {chains : List ActiveChain} :
      LeadsTo b b' → chains.Perm b'.chains → LeadsTo b { b' with chains }

/-- More events lead to what they lead to. -/
theorem LeadsTo.foldl (h : b.LeadsTo b') (es : List Event) :
    b.LeadsTo (es.foldl Broker.step b') := by
  induction es generalizing b' with
  | nil => exact h
  | cons e es ih => exact ih (h.step e)

/-- What comes later goes on with the run. -/
theorem Run.leadsTo (h : Run settings J b) (hlater : b.LeadsTo b') :
    ∃ N, Run settings (J ++ N) b' ∧ Moves ⟨J, b, none⟩ ⟨J ++ N, b', none⟩ := by
  induction hlater with
  | refl =>
      rw [← List.append_nil J] at h
      exact ⟨[], h, by rw [List.append_nil]; exact Moves.refl _⟩
  | @step b' e _ ih =>
      obtain ⟨N, hrun, hmoves⟩ := ih
      have hevent := moves_step ((J ++ N) ++ [.happened e]) hrun.distinct e
      have hmore := hmoves.trans ((Move.happened e).moves.trans hevent)
      rw [← List.append_cons, List.append_assoc] at hmore
      have hnext := hrun.step e
      rw [List.append_assoc] at hnext
      exact ⟨_, hnext, hmore⟩
  | reordered _ hp ih =>
      obtain ⟨N, hrun, hmoves⟩ := ih
      exact ⟨N, hrun.reordered hp, hmoves.trans (Move.reordered hp).moves⟩

/-- An id that is in use no more answers to nothing, ever. -/
theorem Run.respond_unused (h : Run settings J b) (hgiven : id ∈ opened J) (hfree : id ∉ b.uses)
    (hlater : b.LeadsTo b') (hb' : b'.nextId ≤ UInt64.size) (ext : String) {r : Response}
    (hr : r.packetId = id) :
    b'.Refuses "unknown_chain" (.unknownChain id.toNat) (b'.respond ext r) := by
  subst hr
  obtain ⟨N, hrun, hmoves⟩ := h.leadsTo hlater
  have hunused : Unused r.packetId ⟨J ++ N, b', none⟩ :=
    Unused.moves ⟨hgiven, hfree⟩ hmoves (hrun.nodup_opened hb')
  exact (respond_unknown ext (chain?_eq_none_of_not_mem_uses hunused.free)
    (correlation?_eq_none_of_not_mem_uses hunused.free)).1

/-! ## one counter for everything -/

/-- What ids are as long as 64 bits are enough: each is below the counter, chains and copies have
different ones, each is found under its own, and in the whole journal none is given out twice. -/
structure Identified (J : List Note) (b : Broker) : Prop where
  chainBelow : ∀ a ∈ b.chains, a.chain.id.toNat < b.nextId
  copyBelow : ∀ c ∈ b.correlations, c.packetId.toNat < b.nextId
  apart : ∀ a ∈ b.chains, ∀ c ∈ b.correlations, a.chain.id ≠ c.packetId
  chainFound : ∀ a ∈ b.chains, b.chain? a.chain.id = some a
  copyFound : ∀ c ∈ b.correlations, b.correlation? c.packetId = some c
  once : (opened J).Nodup

/-- In every run ids are what they are meant to be, as long as 64 bits are enough. -/
theorem Run.identified (h : Run settings J b) (hb : b.nextId ≤ UInt64.size) : Identified J b := by
  have huses : (b.chains.map (·.chain.id) ++ b.correlations.map (·.packetId)).Nodup :=
    h.nodup_uses hb
  obtain ⟨_, hcopies, hapart⟩ := List.nodup_append.mp huses
  have hbelow : ∀ id ∈ b.uses, id.toNat < b.nextId := fun id hid =>
    h.toNat_lt_of_mem_opened hb (h.mem_opened_of_mem_uses hid)
  exact {
    chainBelow := fun a ha => hbelow _ (List.mem_append_left _ (List.mem_map_of_mem ha))
    copyBelow := fun c hc => hbelow _ (List.mem_append_right _ (List.mem_map_of_mem hc))
    apart := fun a ha c hc => hapart _ (List.mem_map_of_mem ha) _ (List.mem_map_of_mem hc)
    chainFound := fun a ha => chain?_of_mem h.distinct ha
    copyFound := fun c hc => by
      cases ho : b.correlation? c.packetId with
      | none => simpa using List.find?_eq_none.mp ho c hc
      | some c' =>
          rw [List.inj_on_of_nodup_map hcopies (List.mem_of_find?_eq_some ho) hc
            (correlation?_eq_some ho)]
    once := h.nodup_opened hb }

/-! ## chains and copies never change places -/

/-- A chain of the table was started. -/
theorem Run.started_of_chain (h : Run settings J b) {a : ActiveChain} (ha : b.chain? id = some a) :
    ∃ c₀, .started c₀ ∈ J ∧ c₀.id = id := by
  obtain ⟨client, hlast, _⟩ := h.holder_of_chain ha
  obtain ⟨p, q, rfl, _⟩ := exists_append_of_getLast?_thread hlast
  obtain ⟨c₀, hc₀, hid⟩ :=
    h.started_before (p := p) (n := .handed a.chain client true) ⟨q, by simp⟩ rfl rfl
  exact ⟨c₀, List.mem_append_left _ hc₀, hid.trans (chain?_eq_some ha).2⟩

/-- A copy that may be answered was given out. -/
theorem Run.copied_of_correlation (h : Run settings J b) {c : Correlation}
    (hc : b.correlation? id = some c) :
    ∃ client frame, .copied client frame true ∈ J ∧ frame.packetId = id := by
  obtain ⟨client, frame, hcopied, hid, _⟩ := h.known c (List.mem_of_find?_eq_some hc)
  exact ⟨client, frame, hcopied, hid.trans (correlation?_eq_some hc)⟩

/-- The id of a chain is never that of a copy. -/
theorem not_copied_of_started (honce : (opened J).Nodup) {c₀ : Chain} {client : Client}
    {frame : Frame} {sent : Bool} (hstarted : .started c₀ ∈ J)
    (hcopied : .copied client frame sent ∈ J) : c₀.id ≠ frame.packetId := by
  intro hid
  cases eq_of_count_opened (List.nodup_iff_count_le_one.mp honce _) hstarted hcopied rfl
    (congrArg some hid.symm)

/-- What has left its table is in neither. -/
theorem Run.free_of_left {b₁ : Broker} (h : Run settings J b) (h₁ : Run settings (J ++ N) b₁)
    (honce : (opened (J ++ N)).Nodup)
    (hleft : ((b.chain? id).isSome ∧ b₁.chain? id = none) ∨
      ((b.correlation? id).isSome ∧ b₁.correlation? id = none)) :
    id ∈ opened (J ++ N) ∧ id ∉ b₁.uses := by
  obtain ⟨hsome, hnone⟩ | ⟨hsome, hnone⟩ := hleft
  · obtain ⟨a, ha⟩ := Option.isSome_iff_exists.mp hsome
    obtain ⟨c₀, hstarted, rfl⟩ := h.started_of_chain ha
    have hstarted : .started c₀ ∈ J ++ N := List.mem_append_left N hstarted
    refine ⟨mem_opened hstarted rfl, not_mem_uses hnone ?_⟩
    cases ho : b₁.correlation? c₀.id with
    | none => rfl
    | some o =>
        obtain ⟨client, frame, hcopied, hid⟩ := h₁.copied_of_correlation ho
        exact absurd hid.symm (not_copied_of_started honce hstarted hcopied)
  · obtain ⟨c, hc⟩ := Option.isSome_iff_exists.mp hsome
    obtain ⟨client, frame, hcopied, rfl⟩ := h.copied_of_correlation hc
    have hcopied : .copied client frame true ∈ J ++ N := List.mem_append_left N hcopied
    refine ⟨mem_opened hcopied rfl, not_mem_uses ?_ hnone⟩
    cases ha : b₁.chain? frame.packetId with
    | none => rfl
    | some a =>
        obtain ⟨c₀, hstarted, hid⟩ := h₁.started_of_chain ha
        exact absurd hid (not_copied_of_started honce hstarted hcopied)

/-- **Ids belong to one chain, one copy or one packet, for ever.**  As long as no more ids have been
drawn than 64 bits can tell, chains and copies in the tables are told apart by their ids, which are
below the counter, and no id of the whole journal is given out twice.  So when a chain or a copy has
left its table, every later answer that names it is refused as naming nothing, and changes
nothing. -/
theorem Run.ids_for_ever (h : Run settings J b) (hb : b.nextId ≤ UInt64.size) :
    Identified J b ∧
      ∀ (id : UInt64) (b₁ b₂ : Broker), b.LeadsTo b₁ → b₁.LeadsTo b₂ → b₂.nextId ≤ UInt64.size →
        ((b.chain? id).isSome ∧ b₁.chain? id = none) ∨
          ((b.correlation? id).isSome ∧ b₁.correlation? id = none) →
        ∀ (ext : String) (r : Response), r.packetId = id →
          b₂.Refuses "unknown_chain" (.unknownChain id.toNat) (b₂.respond ext r) := by
  refine ⟨h.identified hb, fun id b₁ b₂ hlater hthen hb₂ hleft ext r hr => ?_⟩
  obtain ⟨N, h₁, _⟩ := h.leadsTo hlater
  obtain ⟨N', h₂, _⟩ := h₁.leadsTo hthen
  have honce := h₂.nodup_opened hb₂
  rw [opened_append] at honce
  obtain ⟨hgiven, hfree⟩ := h.free_of_left h₁ (List.nodup_append.mp honce).1 hleft
  exact h₁.respond_unused hgiven hfree hthen hb₂ ext hr

/-- A packet gives an observer copy 1 and starts chain 2. The chain ends and a packet is sent under
the next id; a second answer to the chain is refused as naming nothing. -/
theorem ids_for_ever_after_answer :
    ∃ J b b₁ b₂, Run {} J b ∧ b.nextId ≤ UInt64.size ∧ b.correlations.map (·.packetId) = [1] ∧
    (b.chain? 2).isSome = true ∧ b.LeadsTo b₁ ∧ b₁.chain? 2 = none ∧ b₁.LeadsTo b₂ ∧
    b₂.nextId ≤ UInt64.size ∧ b₂.injected.items.map (·.packetId) = [3] ∧ Identified J b ∧
    b₂.Refuses "unknown_chain" (.unknownChain 2) (b₂.respond "blocker" ⟨2, 1, .pass⟩) := by
  let text : Interest := { id := 1, kind := .net .genericText }
  let run : List Event := [
    .register "observer" [{ text with blocking := .sendAndForget }] 4, .register "blocker" [text] 4,
    .submit [2, 0, 0, 0, 0] .clientToServer 0]
  let answered : List Event := run ++ [.respond "blocker" ⟨2, 1, .pass⟩]
  let pushed : List Event := answered ++ [.inject [2, 0, 0, 0, 0] .serverToClient 0]
  have h : Run {} _ (run.foldl Broker.step (.new {})) := Run.new.foldl run
  have hdrawn : (run.foldl Broker.step (.new {})).nextId = 3 := by cbv
  have hdrawn₂ : (pushed.foldl Broker.step (.new {})).nextId = 4 := by cbv
  have hwaits : ((run.foldl Broker.step (.new {})).chain? 2).isSome = true := by cbv
  have hleft : (answered.foldl Broker.step (.new {})).chain? 2 = none := by cbv
  have hb : (run.foldl Broker.step (.new {})).nextId ≤ UInt64.size := by rw [hdrawn]; decide
  have hb₂ : (pushed.foldl Broker.step (.new {})).nextId ≤ UInt64.size := by rw [hdrawn₂]; decide
  have hlater := (LeadsTo.refl (b := run.foldl Broker.step (.new {}))).foldl
    [.respond "blocker" ⟨2, 1, .pass⟩]
  have hthen := (LeadsTo.refl (b := answered.foldl Broker.step (.new {}))).foldl
    [.inject [2, 0, 0, 0, 0] .serverToClient 0]
  obtain ⟨hidentified, hgone⟩ := h.ids_for_ever hb
  exact ⟨_, _, _, _, h, hb, by cbv, hwaits, hlater, hleft, hthen, hb₂, by cbv, hidentified,
    hgone 2 _ _ hlater hthen hb₂ (.inl ⟨hwaits, hleft⟩) "blocker" ⟨2, 1, .pass⟩ rfl⟩

end Intercept.Broker
