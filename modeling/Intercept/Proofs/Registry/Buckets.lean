import Mathlib.Data.Set.Function
import Intercept.Proofs.Registry.Order

/-!
# Intercept.Proofs.Registry.Buckets

What the buckets look like, whoever came and went.

```
r.changed a               what registering or unregistering makes of the registry
Tidy r                    filed, no bucket empty, every bucket in order
r.place c                 the name of c, and how many clients of that name came before it
Roll.after changes        who is registered, kept as a plain table of names
```

A bucket stays in order because whoever is put in has the highest number so
far and goes behind its equals (`Ordered.insertClient`); in a bucket that is
in order the place found by halving is that place
(`Ordered.insertClient_eq_insertIdx`).  The one step is `Tidy.changed`, and
`buckets_foldl_changed` is the result over a whole history: the clients are
the interests of those who are registered now, position by position.
-/

namespace Intercept

/-- Whether `c` is served before `d`. -/
def Client.Before (c d : Client) : Prop :=
  d.interest.priority < c.interest.priority ∨
    (c.interest.priority = d.interest.priority ∧ c.seq < d.seq)

namespace Registry

/-! ## a bucket in order -/

/-- The most urgent first, equal ones by their numbers. -/
def Ordered (cs : List Client) : Prop := cs.Pairwise Client.Before

/-- A newcomer goes behind its equals, so the bucket stays in order. -/
theorem Ordered.insertClient {c : Client} {cs : List Client} (h : Ordered cs)
    (hnew : ∀ d ∈ cs, d.seq < c.seq) : Ordered (insertClient c cs) := by
  induction cs with
  | nil => exact List.pairwise_singleton _ _
  | cons d ds ih =>
      obtain ⟨hd, hds⟩ := List.pairwise_cons.mp h
      have hlt : d.seq < c.seq := hnew d List.mem_cons_self
      unfold Registry.insertClient
      split
      · next hle =>
          refine List.pairwise_cons.mpr ⟨fun e he => ?_, ih hds fun e he => hnew e (.tail _ he)⟩
          cases (mem_insertClient c e ds).mp he with
          | inl hc =>
              subst hc
              unfold Client.Before
              omega
          | inr hold => exact hd e hold
      · next hgt =>
          refine List.pairwise_cons.mpr ⟨fun e he => .inl ?_, h⟩
          cases List.mem_cons.mp he with
          | inl hc =>
              subst hc
              omega
          | inr hold =>
              have hde := hd e hold
              unfold Client.Before at hde
              omega

/-- Where a client is put: all before it are at least as urgent, all behind it less. -/
def Cut (c : Client) (cs : List Client) (n : Nat) : Prop :=
  (∀ d ∈ cs.take n, c.interest.priority ≤ d.interest.priority) ∧
    ∀ d ∈ cs.drop n, d.interest.priority < c.interest.priority

/-- A client is put where the less urgent ones begin. -/
theorem Cut.insertClient_eq {c : Client} {cs : List Client} {n : Nat} (h : Cut c cs n)
    (hn : n ≤ cs.length) : insertClient c cs = cs.insertIdx n c := by
  induction cs generalizing n with
  | nil =>
      obtain rfl : n = 0 := Nat.le_zero.mp hn
      rfl
  | cons d ds ih =>
      unfold insertClient
      cases n with
      | zero =>
          have hlt : d.interest.priority < c.interest.priority := h.2 d List.mem_cons_self
          rw [if_neg (Int.not_le.mpr hlt), List.insertIdx_zero]
      | succ n =>
          have hle : c.interest.priority ≤ d.interest.priority := h.1 d List.mem_cons_self
          have hrest : Cut c ds n := ⟨fun e he => h.1 e (.tail _ he), h.2⟩
          rw [if_pos hle, ih hrest (Nat.le_of_succ_le_succ hn), List.insertIdx_succ_cons]

/-- The first place from `low` to `high` where a test fails, by halving; right if the test holds up
to that place and nowhere behind it. -/
def bisect (p : Nat → Bool) (low high : Nat) : Nat :=
  if low < high then
    if p ((low + high) / 2) then bisect p ((low + high) / 2 + 1) high
    else bisect p low ((low + high) / 2)
  else low
termination_by high - low

/-- Halving keeps a test that holds below `low` and fails from `high` on. -/
theorem bisect_cut {p : Nat → Bool} (hp : ∀ i j, i ≤ j → p j = true → p i = true) {low high : Nat}
    (hle : low ≤ high) (hlow : ∀ i, i < low → p i = true)
    (hhigh : ∀ i, high ≤ i → p i = false) :
    bisect p low high ≤ high ∧ (∀ i, i < bisect p low high → p i = true) ∧
      ∀ i, bisect p low high ≤ i → p i = false := by
  fun_induction bisect p low high with
  | case1 low high hlt hmid ih =>
      refine ih (by omega) (fun i hi => hp i _ (by omega) hmid) hhigh
  | case2 low high hlt hmid ih =>
      have hfail : ∀ i, (low + high) / 2 ≤ i → p i = false := fun i hi =>
        Bool.eq_false_iff.mpr fun hpi => hmid (hp _ i hi hpi)
      obtain ⟨hbound, hbelow, habove⟩ := ih (by omega) hlow hfail
      exact ⟨by omega, hbelow, habove⟩
  | case3 low high hnot => exact ⟨hle, hlow, fun i hi => hhigh i (by omega)⟩

/-- Whether the client at a place is at least as urgent as `c`. -/
def yields (c : Client) (cs : List Client) (i : Nat) : Bool :=
  cs[i]?.any (c.interest.priority ≤ ·.interest.priority)

/-- The test at a place asks for the priority of the client there. -/
theorem yields_iff {c : Client} {cs : List Client} {i : Nat} (hi : i < cs.length) :
    yields c cs i = true ↔ c.interest.priority ≤ cs[i].interest.priority := by
  unfold yields
  rw [List.getElem?_eq_getElem hi, Option.any_some, decide_eq_true_iff]

/-- It fails at every place past the end. -/
theorem yields_of_length_le {c : Client} {cs : List Client} {i : Nat} (hi : cs.length ≤ i) :
    yields c cs i = false := by
  unfold yields
  rw [List.getElem?_eq_none hi, Option.any_none]

/-- In a bucket in order it holds up to one place and nowhere behind it. -/
theorem Ordered.yields_of_le {cs : List Client} (h : Ordered cs) (c : Client) (i j : Nat)
    (hij : i ≤ j) (hj : yields c cs j = true) : yields c cs i = true := by
  by_cases hlen : j < cs.length
  · rw [yields_iff hlen] at hj
    rw [yields_iff (by omega)]
    cases Nat.lt_or_eq_of_le hij with
    | inl hlt =>
        have hbefore := List.pairwise_iff_getElem.mp h i j (by omega) hlen hlt
        unfold Client.Before at hbefore
        omega
    | inr he =>
        subst he
        exact hj
  · rw [yields_of_length_le (by omega)] at hj
    cases hj

/-- **In a bucket in order, halving finds the place of a client.** -/
theorem Ordered.insertClient_eq_insertIdx {cs : List Client} (h : Ordered cs) (c : Client) :
    Registry.insertClient c cs = cs.insertIdx (bisect (yields c cs) 0 cs.length) c := by
  obtain ⟨hn, hbelow, habove⟩ := bisect_cut (h.yields_of_le c) (Nat.zero_le _)
    (fun i hi => absurd hi (Nat.not_lt_zero i)) (fun i hi => yields_of_length_le hi)
  refine Cut.insertClient_eq ⟨fun d hd => ?_, fun d hd => ?_⟩ hn
  · obtain ⟨i, hi, rfl⟩ := List.mem_take_iff_getElem.mp hd
    exact (yields_iff _).mp (hbelow i (by omega))
  · obtain ⟨i, hi, rfl⟩ := List.mem_drop_iff_getElem.mp hd
    have hnot := habove _ (Nat.le_add_right (bisect (yields c cs) 0 cs.length) i)
    rw [Bool.eq_false_iff, Ne, yields_iff (by omega)] at hnot
    omega

/-! ## all buckets -/

/-- The clients are filed, no bucket is empty and every bucket is in order. -/
structure Tidy (r : Registry) : Prop where
  filed : r.Filed
  nonempty : ∀ e ∈ r.buckets, e.2 ≠ []
  ordered : ∀ e ∈ r.buckets, Ordered e.2

/-- A registry is tidy at first. -/
theorem tidy_empty : Tidy {} :=
  ⟨filed_empty, fun _ he => absurd he List.not_mem_nil, fun _ he => absurd he List.not_mem_nil⟩

theorem insertClient_ne_nil (c : Client) (cs : List Client) : insertClient c cs ≠ [] :=
  List.ne_nil_of_mem ((mem_insertClient c c cs).mpr (.inl rfl))

/-- What holds of every bucket and of a client put into one holds afterwards. -/
theorem forall_mem_addClient {P : List Client → Prop} {c : Client}
    {bs : List (InterestKind × List Client)} (hnew : P [c])
    (hput : ∀ e ∈ bs, P (insertClient c e.2)) (h : ∀ e ∈ bs, P e.2) :
    ∀ e ∈ addClient c bs, P e.2 := by
  induction bs with
  | nil => exact List.forall_mem_singleton.mpr hnew
  | cons e bs ih =>
      obtain ⟨kind, cs⟩ := e
      obtain ⟨hputHere, hputRest⟩ := List.forall_mem_cons.mp hput
      obtain ⟨hhere, hrest⟩ := List.forall_mem_cons.mp h
      unfold addClient
      split
      · exact List.forall_mem_cons.mpr ⟨hputHere, hrest⟩
      · exact List.forall_mem_cons.mpr ⟨hhere, ih hputRest hrest⟩

/-- No client has a number to come. -/
theorem Holds.seq_le {r : Registry} {cs : List Client} (h : r.Holds cs)
    {e : InterestKind × List Client} (he : e ∈ r.buckets) {c : Client} (hc : c ∈ e.2) :
    c.seq ≤ r.lastSeq :=
  h.bounded c (h.perm.mem_iff.mpr (List.mem_flatMap.mpr ⟨e, he, hc⟩))

/-- Interests that come in later are put behind their equals, so the buckets stay in order. -/
theorem Holds.ordered_addInterests {r : Registry} {cs : List Client} (h : r.Holds cs)
    (hne : ∀ e ∈ r.buckets, e.2 ≠ []) (ho : ∀ e ∈ r.buckets, Ordered e.2) (ext : String)
    (session : Nat) (is : List Interest) :
    (∀ e ∈ (r.addInterests ext session is).buckets, e.2 ≠ []) ∧
      ∀ e ∈ (r.addInterests ext session is).buckets, Ordered e.2 := by
  induction is generalizing r cs with
  | nil => exact ⟨hne, ho⟩
  | cons i is ih =>
      let c : Client := ⟨ext, i, r.lastSeq + 1, session⟩
      have hnext : ∀ e ∈ r.buckets, Ordered (insertClient c e.2) := fun e he =>
        (ho e he).insertClient fun d hd => Nat.lt_succ_of_le (h.seq_le he hd)
      exact ih (h.addClient (c := c) rfl)
        (forall_mem_addClient (P := (· ≠ [])) (List.cons_ne_nil c [])
          (fun e _ => insertClient_ne_nil c e.2) hne)
        (forall_mem_addClient (List.pairwise_singleton _ c) hnext ho)

/-- Taking a name out leaves every bucket in order, and drops those that it empties. -/
theorem Tidy.remove {r : Registry} (h : r.Tidy) (ext : String) : (r.remove ext).Tidy := by
  refine ⟨h.filed.remove ext, fun e he => ?_, fun e he => ?_⟩
  · exact of_decide_eq_true (List.mem_filter.mp he).2
  · obtain ⟨f, hf, rfl⟩ := List.mem_map.mp (List.mem_filter.mp he).1
    exact (h.ordered f hf).sublist List.filter_sublist

/-- A registration puts every interest in its bucket, in order. -/
theorem Tidy.register {r : Registry} (h : r.Tidy) (ext : String) (is : List Interest) :
    (r.register ext is).Tidy := by
  have hout := h.remove ext
  obtain ⟨cs, hcs, _⟩ := hout.filed.held
  have hcs : Holds { r.remove ext with lastSession := r.lastSession + 1 } cs :=
    ⟨hcs.kinds, hcs.distinct, hcs.perm, hcs.numbered, hcs.bounded⟩
  obtain ⟨hne, ho⟩ := hcs.ordered_addInterests hout.nonempty hout.ordered ext (r.lastSession + 1) is
  exact ⟨h.filed.register ext is, hne, ho⟩

/-! ## the place of a client -/

/-- The name of a client, and how many clients of that name came before it. -/
def place (r : Registry) (c : Client) : String × Nat :=
  (c.ext, r.clients.countP fun d => d.ext = c.ext ∧ d.seq < c.seq)

/-- Among clients whose numbers grow, a client stands behind those with smaller numbers. -/
theorem countP_lt_getElem {cs : List Client} (h : cs.Pairwise (·.seq < ·.seq)) {i : Nat}
    (hi : i < cs.length) : cs.countP (fun d => d.seq < cs[i].seq) = i := by
  induction cs generalizing i with
  | nil => cases hi
  | cons c cs ih =>
      obtain ⟨hc, hcs⟩ := List.pairwise_cons.mp h
      cases i with
      | zero =>
          rw [List.countP_eq_zero]
          intro d hd
          cases List.mem_cons.mp hd with
          | inl he => simp [he]
          | inr hold =>
              have hlt := hc d hold
              simp only [List.getElem_cons_zero, decide_eq_true_eq]
              omega
      | succ i =>
          have hi : i < cs.length := Nat.lt_of_succ_lt_succ hi
          have hlt : c.seq < cs[i].seq := hc _ (List.getElem_mem hi)
          rw [List.getElem_cons_succ, List.countP_cons_of_pos (by simpa using hlt), ih hcs hi]

/-- The place of a client is its position among those of its name. -/
theorem Holds.place_eq {r : Registry} {cs : List Client} (h : r.Holds cs) {ext : String} {i : Nat}
    (hi : i < (cs.filter (·.ext = ext)).length) :
    r.place (cs.filter (·.ext = ext))[i] = (ext, i) := by
  have hext : (cs.filter (·.ext = ext))[i].ext = ext := by
    simpa using (List.mem_filter.mp (List.getElem_mem hi)).2
  have hnumbered : (cs.filter (·.ext = ext)).Pairwise (·.seq < ·.seq) :=
    h.numbered.sublist List.filter_sublist
  have hcount := countP_lt_getElem hnumbered hi
  rw [List.countP_filter] at hcount
  unfold place
  rw [← h.perm.countP_eq, hext]
  refine congrArg (Prod.mk ext) (Eq.trans (List.countP_congr fun d _ => ?_) hcount)
  simp [and_comm]

/-- Under distinct names, whoever is in the list is found. -/
theorem Filed.get?_of_mem {r : Registry} (h : r.Filed) {g : Registration}
    (hg : g ∈ r.registrations) : r.get? g.ext = some g := by
  unfold get?
  cases hf : r.registrations.find? (·.ext = g.ext) with
  | none => simpa using List.find?_eq_none.mp hf g hg
  | some g' =>
      have hext : g'.ext = g.ext := by simpa using List.find?_some hf
      rw [List.inj_on_of_nodup_map h.names (List.mem_of_find?_eq_some hf) hg hext]

/-- The subscriptions in one name are those of its registration. -/
theorem Filed.filter_subscriptions {r : Registry} (h : r.Filed) {g : Registration}
    (hg : g ∈ r.registrations) :
    r.subscriptions.filter (·.ext = g.ext) = g.subscriptions := by
  obtain ⟨before, after, hsplit⟩ := List.append_of_mem hg
  have hnames := h.names
  rw [hsplit, List.map_append, List.map_cons, List.nodup_append] at hnames
  obtain ⟨_, hafter, hcross⟩ := hnames
  have hnone : ∀ gs : List Registration, (∀ f ∈ gs, f.ext ≠ g.ext) →
      (gs.flatMap Registration.subscriptions).filter (·.ext = g.ext) = [] := by
    intro gs hgs
    rw [List.filter_eq_nil_iff]
    intro s hs
    obtain ⟨f, hf, hsf⟩ := List.mem_flatMap.mp hs
    obtain ⟨i, _, rfl⟩ := List.mem_map.mp hsf
    simpa using hgs f hf
  have hown : g.subscriptions.filter (·.ext = g.ext) = g.subscriptions := by
    rw [List.filter_eq_self]
    intro s hs
    obtain ⟨i, _, rfl⟩ := List.mem_map.mp hs
    simp
  unfold subscriptions
  rw [hsplit, List.flatMap_append, List.flatMap_cons, List.filter_append, List.filter_append,
    hnone before, hnone after, hown, List.nil_append, List.append_nil]
  · intro f hf he
    exact (List.nodup_cons.mp hafter).1 (List.mem_map.mpr ⟨f, hf, he⟩)
  · intro f hf he
    exact hcross f.ext (List.mem_map.mpr ⟨f, hf, rfl⟩) g.ext List.mem_cons_self he

/-- The clients in one name are the interests of its registration, in their order. -/
theorem Filed.own {r : Registry} (h : r.Filed) {cs : List Client}
    (hsubs : cs.map Client.subscription = r.subscriptions) {ext : String} {g : Registration}
    (hg : r.get? ext = some g) :
    (cs.filter (·.ext = ext)).map Client.subscription = g.subscriptions := by
  obtain rfl := ext_of_get? hg
  rw [← h.filter_subscriptions (List.mem_of_find?_eq_some hg), ← hsubs, List.filter_map]
  rfl

/-- A registration has one client for each of its interests. -/
theorem length_own {cs : List Client} {g : Registration}
    (h : cs.map Client.subscription = g.subscriptions) : cs.length = g.interests.length := by
  simpa [Registration.subscriptions] using congrArg List.length h

/-- Whoever is filed has a registration, and stands in line with the others of its name. -/
theorem Filed.exists_getElem {r : Registry} (h : r.Filed) {cs : List Client} (hcs : r.Holds cs)
    (hsubs : cs.map Client.subscription = r.subscriptions) {c : Client} (hc : c ∈ r.clients) :
    ∃ g, r.get? c.ext = some g ∧
      ∃ (i : Nat) (hi : i < (cs.filter (·.ext = c.ext)).length),
        (cs.filter (·.ext = c.ext))[i] = c := by
  have hc : c ∈ cs := hcs.perm.mem_iff.mpr hc
  have hs : c.subscription ∈ r.subscriptions := hsubs ▸ List.mem_map_of_mem hc
  obtain ⟨g, hg, hsg⟩ := List.mem_flatMap.mp hs
  obtain ⟨i, _, hi⟩ := List.mem_map.mp hsg
  have hext : g.ext = c.ext := congrArg Subscription.ext hi
  refine ⟨g, hext ▸ h.get?_of_mem hg, ?_⟩
  obtain ⟨n, hn, he⟩ := List.mem_iff_getElem.mp (List.mem_filter.mpr ⟨hc, by simp⟩ :
    c ∈ cs.filter (·.ext = c.ext))
  exact ⟨n, hn, he⟩

/-- Every client has a place of its own in the list of its registration, and every place is taken.
-/
theorem Filed.bijOn_place {r : Registry} (h : r.Filed) :
    Set.BijOn r.place {c | c ∈ r.clients}
      {x | ∃ g, r.get? x.1 = some g ∧ x.2 < g.interests.length} := by
  obtain ⟨cs, hcs, hsubs⟩ := h.held
  refine ⟨fun c hc => ?_, fun c hc d hd hcd => ?_, fun x hx => ?_⟩
  · obtain ⟨g, hg, i, hi, he⟩ := h.exists_getElem hcs hsubs hc
    have hplace := hcs.place_eq hi
    rw [he] at hplace
    rw [hplace]
    exact ⟨g, hg, length_own (h.own hsubs hg) ▸ hi⟩
  · obtain ⟨g, hg, i, hi, he⟩ := h.exists_getElem hcs hsubs hc
    obtain ⟨g', hg', j, hj, he'⟩ := h.exists_getElem hcs hsubs hd
    have hext : c.ext = d.ext := congrArg Prod.fst hcd
    have hplace := hcs.place_eq hi
    have hplace' := hcs.place_eq hj
    rw [he] at hplace
    rw [he'] at hplace'
    rw [hplace, hplace'] at hcd
    obtain rfl : i = j := congrArg Prod.snd hcd
    rw [← he, ← he']
    simp only [hext]
  · obtain ⟨ext, i⟩ := x
    obtain ⟨g, hg, hi⟩ := hx
    have hi : i < (cs.filter (·.ext = ext)).length := (length_own (h.own hsubs hg)).symm ▸ hi
    refine ⟨(cs.filter (·.ext = ext))[i], ?_, hcs.place_eq hi⟩
    exact hcs.perm.mem_iff.mp (List.mem_filter.mp (List.getElem_mem hi)).1

/-- A client carries the session of its registration and the interest at its place. -/
theorem Filed.interest_place {r : Registry} (h : r.Filed) {c : Client} (hc : c ∈ r.clients) :
    ∃ g, r.get? c.ext = some g ∧ c.session = g.session ∧
      g.interests[(r.place c).2]? = some c.interest := by
  obtain ⟨cs, hcs, hsubs⟩ := h.held
  obtain ⟨g, hg, i, hi, he⟩ := h.exists_getElem hcs hsubs hc
  have hplace := hcs.place_eq hi
  rw [he] at hplace
  have hsub : g.subscriptions[i]? = some c.subscription := by
    rw [← h.own hsubs hg, List.getElem?_map, List.getElem?_eq_getElem hi, he]
    rfl
  obtain ⟨interest, hinterest, hc⟩ :=
    Option.map_eq_some_iff.mp ((List.getElem?_map ..).symm.trans hsub)
  refine ⟨g, hg, (congrArg Subscription.session hc).symm, ?_⟩
  rw [hplace, hinterest]
  exact congrArg some (congrArg Subscription.interest hc)

/-! ## histories -/

/-- What can happen to a registry. -/
inductive Change where
  | register (ext : String) (interests : List Interest)
  | unregister (ext : String)
  | unregisterSession (ext : String) (session : Nat)
deriving DecidableEq, Repr

/-- The registry after a change; a call that finds nothing to take out changes nothing. -/
def changed (r : Registry) : Change → Registry
  | .register ext is => r.register ext is
  | .unregister ext => ((r.unregister? ext).map (·.2)).getD r
  | .unregisterSession ext session => ((r.unregisterSession? ext session).map (·.2)).getD r

/-- A name that is not there is not taken out. -/
theorem changed_unregister (r : Registry) (ext : String) :
    r.changed (.unregister ext) = if r.contains ext then r.remove ext else r := by
  have hcall : r.changed (.unregister ext) = ((r.unregister? ext).map (·.2)).getD r := rfl
  rw [hcall, unregister?, contains]
  cases r.get? ext with
  | none => rfl
  | some g => rfl

/-- A session that is not current is not taken out. -/
theorem changed_unregisterSession (r : Registry) (ext : String) (session : Nat) :
    r.changed (.unregisterSession ext session) =
      if r.isCurrent ext session then r.remove ext else r := by
  have hcall : r.changed (.unregisterSession ext session) =
      ((r.unregisterSession? ext session).map (·.2)).getD r := rfl
  rw [hcall, unregisterSession?]
  by_cases hc : r.isCurrent ext session = true
  · obtain ⟨g, hg, _⟩ := (isCurrent_iff r ext session).mp hc
    rw [if_pos hc, if_pos hc, unregister?, hg]
    rfl
  · rw [if_neg hc, if_neg hc]
    rfl

/-- No change leaves a bucket out of order. -/
theorem Tidy.changed {r : Registry} (h : r.Tidy) (a : Change) : (r.changed a).Tidy := by
  cases a with
  | register ext is => exact h.register ext is
  | unregister ext =>
      rw [changed_unregister]
      split
      · exact h.remove ext
      · exact h
  | unregisterSession ext session =>
      rw [changed_unregisterSession]
      split
      · exact h.remove ext
      · exact h

theorem Tidy.foldl {r : Registry} (h : r.Tidy) (changes : List Change) :
    (changes.foldl Registry.changed r).Tidy := by
  induction changes generalizing r with
  | nil => exact h
  | cons a changes ih => exact ih (h.changed a)

/-- Who is registered, as a plain table. -/
structure Roll where
  entry : String → Option Registration := fun _ => none
  /-- How many sessions there have been. -/
  sessions : Nat := 0

namespace Roll

/-- Write an entry, or strike one out. -/
def set (t : Roll) (ext : String) (g : Option Registration) : Roll :=
  { t with entry := fun name => if name = ext then g else t.entry name }

@[simp] theorem entry_set_self (t : Roll) (ext : String) (g : Option Registration) :
    (t.set ext g).entry ext = g := if_pos rfl

theorem entry_set_of_ne (t : Roll) {ext name : String} (g : Option Registration)
    (h : name ≠ ext) : (t.set ext g).entry name = t.entry name := if_neg h

def changed (t : Roll) : Change → Roll
  | .register ext is =>
    { t.set ext (some ⟨ext, t.sessions + 1, is⟩) with sessions := t.sessions + 1 }
  | .unregister ext => t.set ext none
  | .unregisterSession ext session =>
    if (t.entry ext).map (·.session) = some session then t.set ext none else t

/-- The table after these changes. -/
def after (changes : List Change) : Roll := changes.foldl changed {}

end Roll

/-- The registry and the table know the same registrations. -/
structure Agrees (r : Registry) (t : Roll) : Prop where
  entry : ∀ ext, r.get? ext = t.entry ext
  sessions : r.lastSession = t.sessions

/-- A name is struck out of the registry and of the table. -/
theorem Agrees.remove {r : Registry} {t : Roll} (h : r.Agrees t) (ext : String) :
    (r.remove ext).Agrees (t.set ext none) := by
  refine ⟨fun name => ?_, h.sessions⟩
  by_cases hn : name = ext
  · rw [hn, get?_remove_self, Roll.entry_set_self]
  · rw [get?_remove_of_ne r hn, Roll.entry_set_of_ne t none hn, h.entry]

/-- Striking out a name that is not there changes nothing. -/
theorem Agrees.set_none {r : Registry} {t : Roll} (h : r.Agrees t) {ext : String}
    (hnone : r.get? ext = none) : r.Agrees (t.set ext none) := by
  refine ⟨fun name => ?_, h.sessions⟩
  by_cases hn : name = ext
  · rw [hn, hnone, Roll.entry_set_self]
  · rw [Roll.entry_set_of_ne t none hn, h.entry]

/-- A registration is written into both, under the same number. -/
theorem Agrees.register {r : Registry} {t : Roll} (h : r.Agrees t) (ext : String)
    (is : List Interest) : (r.register ext is).Agrees (t.changed (.register ext is)) := by
  constructor
  · intro name
    have hentry : (t.changed (.register ext is)).entry name =
        (t.set ext (some ⟨ext, t.sessions + 1, is⟩)).entry name := rfl
    rw [hentry]
    by_cases hn : name = ext
    · rw [hn, get?_register_self, Roll.entry_set_self, h.sessions]
    · rw [get?_register_of_ne r is hn, Roll.entry_set_of_ne t _ hn, h.entry]
  · rw [lastSession_register, h.sessions]
    rfl

/-- Every change does to the registry what it does to the table. -/
theorem Agrees.changed {r : Registry} {t : Roll} (h : r.Agrees t) (a : Change) :
    (r.changed a).Agrees (t.changed a) := by
  cases a with
  | register ext is => exact h.register ext is
  | unregister ext =>
      rw [changed_unregister]
      split
      · exact h.remove ext
      · next hnot => exact h.set_none (by simpa [contains] using hnot)
  | unregisterSession ext session =>
      have hiff : r.isCurrent ext session = true ↔
          (t.entry ext).map (·.session) = some session := by
        rw [isCurrent_iff, ← h.entry, Option.map_eq_some_iff]
      have hcall : t.changed (.unregisterSession ext session) =
          if (t.entry ext).map (·.session) = some session then t.set ext none else t := rfl
      rw [changed_unregisterSession, hcall]
      by_cases hc : r.isCurrent ext session = true
      · rw [if_pos hc, if_pos (hiff.mp hc)]
        exact h.remove ext
      · rw [if_neg hc, if_neg fun hs => hc (hiff.mpr hs)]
        exact h

theorem Agrees.foldl {r : Registry} {t : Roll} (h : r.Agrees t) (changes : List Change) :
    (changes.foldl Registry.changed r).Agrees (changes.foldl Roll.changed t) := by
  induction changes generalizing r t with
  | nil => exact h
  | cons a changes ih => exact ih (h.changed a)

/-- After any history the registry knows who is registered. -/
theorem agrees_after (changes : List Change) :
    (changes.foldl changed {}).Agrees (.after changes) :=
  Agrees.foldl ⟨fun _ => rfl, rfl⟩ changes

/-- Buckets without a fault: every bucket holds somebody, only clients of its kind and these in
order, in which halving finds the place of a newcomer; numbers are distinct; and the clients are the
interests of those who are registered, each of them once. -/
structure Faultless (r : Registry) : Prop where
  nonempty : ∀ e ∈ r.buckets, e.2 ≠ []
  kinds : ∀ e ∈ r.buckets, ∀ c ∈ e.2, c.interest.kind = e.1
  distinct : (r.buckets.map (·.1)).Nodup
  ordered : ∀ e ∈ r.buckets, e.2.Pairwise Client.Before
  newcomers : ∀ e ∈ r.buckets, ∀ c,
    insertClient c e.2 = e.2.insertIdx (bisect (yields c e.2) 0 e.2.length) c
  numbers : (r.clients.map (·.seq)).Nodup
  places : Set.BijOn r.place {c | c ∈ r.clients}
    {x | ∃ g, r.get? x.1 = some g ∧ x.2 < g.interests.length}
  interests : ∀ c ∈ r.clients, ∃ g, r.get? c.ext = some g ∧ c.session = g.session ∧
    g.interests[(r.place c).2]? = some c.interest

/-- Buckets in order have no fault. -/
theorem Tidy.faultless {r : Registry} (h : r.Tidy) : r.Faultless := by
  obtain ⟨cs, hcs, _⟩ := h.filed.held
  have hseq : (cs.map (·.seq)).Nodup := (List.pairwise_map.mpr hcs.numbered).imp Nat.ne_of_lt
  exact {
    nonempty := h.nonempty
    kinds := hcs.kinds
    distinct := hcs.distinct
    ordered := h.ordered
    newcomers := fun e he c => (h.ordered e he).insertClient_eq_insertIdx c
    numbers := (hcs.perm.map _).nodup_iff.mp hseq
    places := h.filed.bijOn_place
    interests := fun _ hc => h.filed.interest_place hc }

/-- **Whoever came and went, the buckets are without a fault.** After any history of registering and
unregistering, by name or by session, those who are registered are the ones that a plain table of
names would hold, with the same sessions and interests, and the clients are the interests of these
registrations, position by position, in buckets that are never empty and always in order. -/
theorem buckets_foldl_changed (changes : List Change) :
    (changes.foldl changed {}).Faultless ∧
      ∀ ext, (changes.foldl changed {}).get? ext = (Roll.after changes).entry ext :=
  ⟨(tidy_empty.foldl changes).faultless, (agrees_after changes).entry⟩

end Registry

end Intercept
