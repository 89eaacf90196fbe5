import Mathlib.Data.List.Nodup
import Intercept.Proofs.Registry.Service

/-!
# Intercept.Proofs.Registry.Order

Who wants to see a packet, without buckets.

```
r.subscriptions          every registered interest, in the order of registration
r.inLine p direction     those of them that want the packet, stably sorted by priority
r.Filed                  the buckets hold the subscriptions, each once and numbered in order
```

Clients are filed one bucket per kind, a packet is looked up in one or two
buckets, and what is found is merged by priority and number.  The result,
`matching_map_subscription`, is `inLine` all the same: numbers grow with the
order of registration, and whoever is taken out leaves the others in order.
-/

namespace Intercept

/-- A registered interest. -/
structure Subscription where
  ext : String
  session : Nat
  interest : Interest
deriving DecidableEq

namespace Subscription

/-- What a chain remembers of it. -/
def key (s : Subscription) : String × InterestKey := (s.ext, s.interest.key)

/-- Whether it listens to packets of this kind and accepts this one. -/
def wants (s : Subscription) (p : Packet) (direction : Direction) : Bool :=
  s.interest.kind.covers p && s.interest.accepts p direction

/-- Whether it is at least as urgent as another. -/
def outranks (s t : Subscription) : Bool := t.interest.priority ≤ s.interest.priority

end Subscription

/-- What is registered in a client's name. -/
def Client.subscription (c : Client) : Subscription := ⟨c.ext, c.session, c.interest⟩

def Registration.subscriptions (g : Registration) : List Subscription :=
  g.interests.map (⟨g.ext, g.session, ·⟩)

namespace Registry

/-- Every registered interest, in the order of registration. -/
def subscriptions (r : Registry) : List Subscription :=
  r.registrations.flatMap Registration.subscriptions

/-- Those who want to see a packet, the most urgent first and equal ones in the order of
registration. -/
def inLine (r : Registry) (p : Packet) (direction : Direction) : List Subscription :=
  (r.subscriptions.filter (·.wants p direction)).mergeSort Subscription.outranks

/-! ## stable sorting -/

/-- Sorting compares elements only as they stand, the earlier one with the later one. -/
theorem map_mergeSort_of_pairwise {α β : Type} {le : α → α → Bool} {le' : β → β → Bool}
    {f : α → β} {l : List α} (h : l.Pairwise fun a b => le a b = le' (f a) (f b)) :
    (l.mergeSort le).map f = (l.map f).mergeSort le' := by
  match l, h with
  | [], _ => simp
  | [a], _ => simp
  | a :: b :: xs, h =>
      let n := ((a :: b :: xs).length + 1) / 2
      have hsplit : ((a :: b :: xs).take n ++ (a :: b :: xs).drop n).Pairwise
          fun a b => le a b = le' (f a) (f b) := by rwa [List.take_append_drop]
      obtain ⟨htake, hdrop, hcross⟩ := List.pairwise_append.mp hsplit
      have hshorter : n < (a :: b :: xs).length := by simp only [n, List.length_cons]; omega
      have hpos : 0 < n := by simp only [n, List.length_cons]; omega
      simp only [List.mergeSort, List.MergeSort.Internal.splitInTwo_fst,
        List.MergeSort.Internal.splitInTwo_snd, List.map_cons]
      rw [List.map_merge fun x hx y hy => hcross x (List.mem_mergeSort.mp hx) y
          (List.mem_mergeSort.mp hy),
        map_mergeSort_of_pairwise htake, map_mergeSort_of_pairwise hdrop]
      simp only [n, List.map_take, List.map_drop, List.map_cons, List.length_cons, List.length_map]
termination_by l.length
decreasing_by
  · simp only [List.length_take, List.length_cons]; omega
  · simp only [List.length_drop, List.length_cons]; omega

/-- The more urgent client precedes, and of two equals the one with the lower number. -/
theorem precedes_iff (c d : Client) : c.precedes d = true ↔
    d.interest.priority < c.interest.priority ∨
      (c.interest.priority = d.interest.priority ∧ c.seq ≤ d.seq) := by
  simp [Client.precedes]

/-- What is sorted by priority and number is in that order. -/
theorem pairwise_precedes_mergeSort (cs : List Client) :
    (cs.mergeSort Client.precedes).Pairwise fun c d => c.precedes d = true := by
  refine List.pairwise_mergeSort (fun a b c hab hbc => ?_) (fun a b => ?_) cs
  · rw [precedes_iff] at hab hbc ⊢
    omega
  · rw [Bool.or_eq_true, precedes_iff, precedes_iff]
    omega

/-- Clients with numbers of their own are sorted in one way only. -/
theorem eq_mergeSort_precedes {cs ds : List Client} (hp : cs.Perm ds)
    (hseq : ds.Pairwise (·.seq < ·.seq)) (hcs : cs.Pairwise fun c d => c.precedes d = true) :
    cs = ds.mergeSort Client.precedes := by
  have hperm : cs.Perm (ds.mergeSort Client.precedes) := hp.trans (List.mergeSort_perm ds _).symm
  refine hperm.eq_of_pairwise ?_ hcs (pairwise_precedes_mergeSort ds)
  intro a b ha hb hab hba
  have ha : a ∈ ds := hp.mem_iff.mp ha
  have hb : b ∈ ds := List.mem_mergeSort.mp hb
  rw [precedes_iff] at hab hba
  have hsame : a.seq = b.seq := by omega
  have hinj : (ds.map (·.seq)).Nodup := (List.pairwise_map.mpr hseq).imp Nat.ne_of_lt
  exact List.inj_on_of_nodup_map hinj ha hb hsame

/-- Clients whose numbers grow are sorted alike, in whatever order they are found. -/
theorem mergeSort_precedes_eq {cs ds : List Client} (hp : cs.Perm ds)
    (hseq : ds.Pairwise (·.seq < ·.seq)) :
    cs.mergeSort Client.precedes = ds.mergeSort Client.precedes :=
  eq_mergeSort_precedes ((List.mergeSort_perm cs _).trans hp) hseq (pairwise_precedes_mergeSort cs)

/-! ## buckets -/

/-- The buckets hold these clients, whose numbers grow, each in the one bucket of its kind. -/
structure Holds (r : Registry) (cs : List Client) : Prop where
  kinds : ∀ e ∈ r.buckets, ∀ c ∈ e.2, c.interest.kind = e.1
  distinct : (r.buckets.map (·.1)).Nodup
  perm : cs.Perm r.clients
  numbered : cs.Pairwise (·.seq < ·.seq)
  bounded : ∀ c ∈ cs, c.seq ≤ r.lastSeq

/-- The buckets hold the subscriptions in the order of registration, and names are distinct. -/
structure Filed (r : Registry) : Prop where
  names : (r.registrations.map (·.ext)).Nodup
  held : ∃ cs, r.Holds cs ∧ cs.map Client.subscription = r.subscriptions

/-- A bucket of a kind holds all clients of that kind. -/
theorem getD_lookup_eq_filter {bs : List (InterestKind × List Client)}
    (hkinds : ∀ e ∈ bs, ∀ c ∈ e.2, c.interest.kind = e.1) (hdistinct : (bs.map (·.1)).Nodup)
    (kind : InterestKind) :
    (bs.lookup kind).getD [] = (bs.flatMap (·.2)).filter (·.interest.kind = kind) := by
  induction bs with
  | nil => rfl
  | cons e bs ih =>
      obtain ⟨hnot, hdistinct⟩ := List.nodup_cons.mp hdistinct
      have hhere : ∀ c ∈ e.2, c.interest.kind = e.1 := hkinds e List.mem_cons_self
      have hrest := fun f hf => hkinds f (List.mem_cons_of_mem e hf)
      rw [List.lookup_cons, List.flatMap_cons, List.filter_append]
      by_cases hk : kind = e.1
      · have hnone : (bs.flatMap (·.2)).filter (·.interest.kind = kind) = [] := by
          rw [List.filter_eq_nil_iff]
          intro c hc
          obtain ⟨f, hf, hcf⟩ := List.mem_flatMap.mp hc
          have hne : f.1 ≠ e.1 := by
            intro he
            exact hnot (List.mem_map.mpr ⟨f, hf, he⟩)
          simpa [hrest f hf c hcf, hk] using hne
        have hall : e.2.filter (·.interest.kind = kind) = e.2 := by
          rw [List.filter_eq_self]
          intro c hc
          simpa [hk] using hhere c hc
        rw [hnone, hall, List.append_nil]
        simp [hk]
      · have hnone : e.2.filter (·.interest.kind = kind) = [] := by
          rw [List.filter_eq_nil_iff]
          intro c hc
          simpa [hhere c hc] using Ne.symm hk
        rw [hnone, List.nil_append, ← ih hrest hdistinct, beq_false_of_ne hk]

theorem Holds.bucket_eq {r : Registry} {cs : List Client} (h : r.Holds cs) (kind : InterestKind) :
    r.bucket kind = r.clients.filter (·.interest.kind = kind) :=
  getD_lookup_eq_filter h.kinds h.distinct kind

/-- Whoever passes one of two tests that exclude each other is found by one or the other. -/
theorem filter_append_perm_filter_or {α : Type} (l : List α) {p q : α → Bool}
    (h : ∀ a, p a = true → q a = false) :
    (l.filter p ++ l.filter q).Perm (l.filter fun a => p a || q a) := by
  have hp : (l.filter fun a => p a || q a).filter p = l.filter p := by
    rw [List.filter_filter]
    refine List.filter_congr fun a _ => ?_
    cases p a <;> simp
  have hq : (l.filter fun a => p a || q a).filter (fun a => !p a) = l.filter q := by
    rw [List.filter_filter]
    refine List.filter_congr fun a _ => ?_
    cases hpa : p a with
    | false => simp
    | true => simp [h a hpa]
  rw [← hp, ← hq]
  exact List.filter_append_perm _ _

/-- The buckets of a packet hold exactly the clients whose kind covers it. -/
theorem Holds.covering_perm {r : Registry} {cs : List Client} (h : r.Holds cs) (p : Packet) :
    (r.covering p).Perm (cs.filter (·.interest.kind.covers p)) := by
  refine List.Perm.trans ?_ (h.perm.filter _).symm
  unfold covering
  rw [h.bucket_eq]
  split
  · next t htype htank =>
      rw [h.bucket_eq]
      refine (filter_append_perm_filter_or _ fun c hc => ?_).trans (List.Perm.of_eq ?_)
      · have hk : c.interest.kind = .net p.type := of_decide_eq_true hc
        simp [hk]
      · refine List.filter_congr fun c _ => ?_
        cases hk : c.interest.kind with
        | net u => simp [InterestKind.covers, htype]
        | tank u => simp [InterestKind.covers, htype, htank, eq_comm]
  · next hother =>
      rw [List.append_nil]
      refine List.Perm.of_eq (List.filter_congr fun c _ => ?_)
      cases hk : c.interest.kind with
      | net u => simp [InterestKind.covers]
      | tank u =>
          have hnot : ¬(p.type = .tankPacket ∧ p.tank?.map (·.type) = some u) := by
            rintro ⟨htype, htank⟩
            obtain ⟨t, ht, _⟩ := Option.map_eq_some_iff.mp htank
            exact hother t htype ht
          simpa [InterestKind.covers] using hnot

/-- Who matches, among clients whose numbers grow. -/
theorem Holds.matching_eq {r : Registry} {cs : List Client} (h : r.Holds cs) (p : Packet)
    (direction : Direction) :
    r.matching p direction =
      (cs.filter fun c => c.subscription.wants p direction).mergeSort Client.precedes := by
  refine mergeSort_precedes_eq ?_ (h.numbered.sublist List.filter_sublist)
  refine ((h.covering_perm p).filter _).trans (List.Perm.of_eq ?_)
  rw [List.filter_filter]
  exact List.filter_congr fun c _ => Bool.and_comm _ _

/-- **Matching through buckets is matching without them.** -/
theorem matching_map_subscription {r : Registry} (hr : r.Filed) (p : Packet)
    (direction : Direction) :
    (r.matching p direction).map Client.subscription = r.inLine p direction := by
  obtain ⟨cs, h, hsubs⟩ := hr.held
  let found := cs.filter fun c => c.subscription.wants p direction
  have hnumbered : found.Pairwise (·.seq < ·.seq) := h.numbered.sublist List.filter_sublist
  -- among clients in the order of their numbers, priority alone decides
  have hstable : found.Pairwise fun c d =>
      c.precedes d = c.subscription.outranks d.subscription := by
    refine hnumbered.imp fun {c d} hlt => ?_
    have hrank : c.subscription.outranks d.subscription = true ↔
        d.interest.priority ≤ c.interest.priority := decide_eq_true_iff
    rw [Bool.eq_iff_iff, precedes_iff, hrank]
    omega
  unfold inLine
  rw [h.matching_eq, map_mergeSort_of_pairwise hstable, ← hsubs, List.filter_map]
  rfl

/-! ## coming and going -/

/-- A client is put in once, and nobody is lost. -/
theorem perm_insertClient (c : Client) (cs : List Client) :
    (insertClient c cs).Perm (c :: cs) := by
  induction cs with
  | nil => exact List.Perm.refl _
  | cons d ds ih =>
      unfold insertClient
      split
      · exact (ih.cons d).trans (List.Perm.swap c d ds)
      · exact List.Perm.refl _

theorem perm_flatMap_addClient (c : Client) (bs : List (InterestKind × List Client)) :
    ((addClient c bs).flatMap (·.2)).Perm (c :: bs.flatMap (·.2)) := by
  induction bs with
  | nil => exact List.Perm.refl _
  | cons e bs ih =>
      obtain ⟨kind, cs⟩ := e
      unfold addClient
      split
      · exact (perm_insertClient c cs).append_right _
      · exact (ih.append_left cs).trans List.perm_middle

/-- A client is put in the bucket of its kind. -/
theorem kinds_addClient (c : Client) {bs : List (InterestKind × List Client)}
    (h : ∀ e ∈ bs, ∀ d ∈ e.2, d.interest.kind = e.1) :
    ∀ e ∈ addClient c bs, ∀ d ∈ e.2, d.interest.kind = e.1 := by
  induction bs with
  | nil => simp [addClient]
  | cons e bs ih =>
      obtain ⟨kind, cs⟩ := e
      have hhere := h (kind, cs) List.mem_cons_self
      have hrest := fun f hf => h f (List.mem_cons_of_mem _ hf)
      unfold addClient
      split
      · next hk =>
          refine List.forall_mem_cons.mpr ⟨fun d hd => ?_, hrest⟩
          cases (mem_insertClient c d cs).mp hd with
          | inl he => rw [he, hk]
          | inr hold => exact hhere d hold
      · exact List.forall_mem_cons.mpr ⟨hhere, ih hrest⟩

/-- A bucket is opened only for a kind that had none. -/
theorem keys_addClient (c : Client) (bs : List (InterestKind × List Client)) :
    (addClient c bs).map (·.1) = bs.map (·.1) ∨
      (c.interest.kind ∉ bs.map (·.1) ∧
        (addClient c bs).map (·.1) = bs.map (·.1) ++ [c.interest.kind]) := by
  induction bs with
  | nil => exact .inr ⟨List.not_mem_nil, rfl⟩
  | cons e bs ih =>
      obtain ⟨kind, cs⟩ := e
      unfold addClient
      by_cases hk : kind = c.interest.kind
      · simp [hk]
      · simp only [if_neg hk, List.map_cons]
        obtain hsame | ⟨hnot, hnew⟩ := ih
        · exact .inl (by rw [hsame])
        · refine .inr ⟨?_, by rw [hnew, List.cons_append]⟩
          rw [List.mem_cons, not_or]
          exact ⟨Ne.symm hk, hnot⟩

/-- A client with the next number is held behind the others. -/
theorem Holds.addClient {r : Registry} {cs : List Client} (h : r.Holds cs) {c : Client}
    (hseq : c.seq = r.lastSeq + 1) :
    Holds { r with lastSeq := r.lastSeq + 1, buckets := Registry.addClient c r.buckets }
      (cs ++ [c]) := by
  constructor
  · exact kinds_addClient c h.kinds
  · obtain hsame | ⟨hnot, hnew⟩ := keys_addClient c r.buckets
    · rw [hsame]
      exact h.distinct
    · rw [hnew]
      exact List.concat_eq_append ▸ h.distinct.concat hnot
  · exact (List.perm_append_comm.trans (h.perm.cons c)).trans
      (perm_flatMap_addClient c r.buckets).symm
  · rw [List.pairwise_append]
    refine ⟨h.numbered, List.pairwise_singleton _ _, fun d hd e he => ?_⟩
    have hbound := h.bounded d hd
    rw [List.mem_singleton.mp he, hseq]
    omega
  · intro d hd
    cases List.mem_append.mp hd with
    | inl hold => exact Nat.le_succ_of_le (h.bounded d hold)
    | inr he =>
        obtain rfl := List.mem_singleton.mp he
        exact Nat.le_of_eq hseq

/-- Interests are held in their order, behind the clients that were there. -/
theorem Holds.addInterests {r : Registry} {cs : List Client} (h : r.Holds cs) (ext : String)
    (session : Nat) (is : List Interest) :
    ∃ new, (r.addInterests ext session is).Holds (cs ++ new) ∧
      new.map Client.subscription = is.map (⟨ext, session, ·⟩) := by
  induction is generalizing r cs with
  | nil => exact ⟨[], by rwa [List.append_nil], rfl⟩
  | cons i is ih =>
      let c : Client := ⟨ext, i, r.lastSeq + 1, session⟩
      obtain ⟨new, hnew, hsubs⟩ := ih (h.addClient (c := c) rfl)
      refine ⟨c :: new, ?_, by rw [List.map_cons, hsubs]; rfl⟩
      rw [← List.append_cons] at hnew
      exact hnew

/-- The buckets of these clients alone. -/
def sift (p : Client → Bool) (bs : List (InterestKind × List Client)) :
    List (InterestKind × List Client) :=
  (bs.map fun (kind, cs) => (kind, cs.filter p)).filter (·.2 ≠ [])

/-- Sifting every bucket sifts the clients. -/
theorem flatMap_sift (p : Client → Bool) (bs : List (InterestKind × List Client)) :
    (sift p bs).flatMap (·.2) = (bs.flatMap (·.2)).filter p := by
  have hnonempty : ∀ bs : List (InterestKind × List Client),
      (bs.filter (·.2 ≠ [])).flatMap (·.2) = bs.flatMap (·.2) := by
    intro bs
    induction bs with
    | nil => rfl
    | cons e bs ih =>
        rw [List.filter_cons, List.flatMap_cons, ← ih]
        by_cases he : e.2 = []
        · simp [he]
        · simp [he]
  unfold sift
  rw [hnonempty, List.flatMap_map, List.filter_flatMap]

/-- Whoever is sifted out leaves the others in order. -/
theorem Holds.sift {r r' : Registry} {cs : List Client} (h : r.Holds cs) (p : Client → Bool)
    (hbuckets : r'.buckets = Registry.sift p r.buckets) (hseq : r'.lastSeq = r.lastSeq) :
    r'.Holds (cs.filter p) := by
  constructor
  · rw [hbuckets]
    intro e he c hc
    obtain ⟨f, hf, rfl⟩ := List.mem_map.mp (List.mem_filter.mp he).1
    exact h.kinds f hf c (List.mem_filter.mp hc).1
  · rw [hbuckets]
    refine h.distinct.sublist ?_
    have hkeys : (r.buckets.map fun e => (e.1, e.2.filter p)).map (·.1) = r.buckets.map (·.1) := by
      simp
    rw [← hkeys]
    exact List.filter_sublist.map _
  · rw [clients, hbuckets, flatMap_sift]
    exact h.perm.filter _
  · exact h.numbered.sublist List.filter_sublist
  · intro c hc
    rw [hseq]
    exact h.bounded c (List.mem_filter.mp hc).1

/-- Taking a name out leaves the others in order. -/
theorem Holds.remove {r : Registry} {cs : List Client} (h : r.Holds cs) (ext : String) :
    (r.remove ext).Holds (cs.filter (·.ext ≠ ext)) := h.sift _ rfl rfl

/-- It takes the subscriptions of that name, and no others. -/
theorem subscriptions_remove (r : Registry) (ext : String) :
    (r.remove ext).subscriptions = r.subscriptions.filter (·.ext ≠ ext) := by
  unfold subscriptions remove
  rw [List.filter_flatMap]
  induction r.registrations with
  | nil => rfl
  | cons g gs ih =>
      rw [List.filter_cons, List.flatMap_cons, ← ih]
      by_cases hg : g.ext = ext
      · simp [hg, Registration.subscriptions, List.filter_eq_nil_iff]
      · have hall : g.subscriptions.filter (·.ext ≠ ext) = g.subscriptions := by
          rw [List.filter_eq_self]
          intro s hs
          obtain ⟨i, _, rfl⟩ := List.mem_map.mp hs
          simpa using hg
        rw [hall]
        simp [hg]

/-- The buckets hold what is left, in order. -/
theorem Filed.remove {r : Registry} (hr : r.Filed) (ext : String) : (r.remove ext).Filed := by
  obtain ⟨cs, h, hsubs⟩ := hr.held
  constructor
  · exact hr.names.sublist (List.filter_sublist.map _)
  · refine ⟨_, h.remove ext, ?_⟩
    rw [subscriptions_remove, ← hsubs, List.filter_map]
    rfl

/-- They hold the new subscriptions behind the others. -/
theorem Filed.register {r : Registry} (hr : r.Filed) (ext : String) (is : List Interest) :
    (r.register ext is).Filed := by
  obtain ⟨cs, h, hsubs⟩ := (hr.remove ext).held
  constructor
  · have hnot : ext ∉ (r.remove ext).registrations.map (·.ext) := by simp [Registry.remove]
    rw [registrations_register, List.map_append]
    exact List.concat_eq_append ▸ (hr.remove ext).names.concat hnot
  · have h : Holds { r.remove ext with lastSession := r.lastSession + 1 } cs :=
      ⟨h.kinds, h.distinct, h.perm, h.numbered, h.bounded⟩
    obtain ⟨new, hnew, hsubs'⟩ := h.addInterests ext (r.lastSession + 1) is
    refine ⟨cs ++ new, ⟨hnew.kinds, hnew.distinct, hnew.perm, hnew.numbered, hnew.bounded⟩, ?_⟩
    unfold subscriptions
    rw [registrations_register, List.flatMap_append, List.map_append, hsubs, hsubs']
    simp [subscriptions, Registration.subscriptions]

theorem filed_empty : Filed {} := by
  refine ⟨List.nodup_nil, [], ⟨?_, List.nodup_nil, List.Perm.refl _, List.Pairwise.nil, ?_⟩, rfl⟩
  · intro e he
    cases he
  · intro c hc
    cases hc

end Registry

end Intercept
