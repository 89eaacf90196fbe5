import Intercept.Broker.Registry

/-!
# Intercept.Proofs.Registry.Service

Every client that the buckets hold speaks for the registration that its
extension has now.

```
r.clients                 all clients, bucket by bucket
r.Serves c                c is an interest of the current session of c.ext
r.Sound                   ∀ c ∈ r.clients, r.Serves c
```

Registering takes the old clients of a name out before it puts the new ones
in, so the three operations keep `Sound` (`Sound.register`, `Sound.remove`),
and the clients that match a packet are served (`Sound.serves_of_mem_matching`).
-/

namespace Intercept.Registry

/-! ## looking up -/

/-- All clients, bucket by bucket. -/
def clients (r : Registry) : List Client := r.buckets.flatMap (·.2)

/-- The client is an interest of the session that is the registration of its extension. -/
def Serves (r : Registry) (c : Client) : Prop :=
  ∃ g, r.get? c.ext = some g ∧ g.session = c.session ∧ c.interest ∈ g.interests

/-- Every client speaks for a current registration. -/
def Sound (r : Registry) : Prop := ∀ c ∈ r.clients, r.Serves c

/-- A session is current if it is that of the registration of its name. -/
theorem isCurrent_iff (r : Registry) (ext : String) (session : Nat) :
    r.isCurrent ext session = true ↔ ∃ g, r.get? ext = some g ∧ g.session = session := by
  simp [isCurrent, Option.any_eq_true]

/-- A client that is served is one of a current session. -/
theorem Serves.isCurrent {r : Registry} {c : Client} (h : r.Serves c) :
    r.isCurrent c.ext c.session = true := by
  obtain ⟨g, hg, hs, _⟩ := h
  exact (isCurrent_iff r _ _).mpr ⟨g, hg, hs⟩

/-- Whom a registry serves depends only on the registration of that name. -/
theorem Serves.of_get? {r r' : Registry} {c : Client} (h : r.Serves c)
    (hget : r'.get? c.ext = r.get? c.ext) : r'.Serves c := by
  unfold Serves
  rw [hget]
  exact h

/-- The session of a client that is served is the one that its name has. -/
theorem Serves.session_eq {r : Registry} {c : Client} {g : Registration} (h : r.Serves c)
    (hg : r.get? c.ext = some g) : g.session = c.session := by
  obtain ⟨g', hg', hs, _⟩ := h
  rw [hg] at hg'
  cases hg'
  exact hs

/-- A registration is found under its own name. -/
theorem ext_of_get? {r : Registry} {ext : String} {g : Registration} (h : r.get? ext = some g) :
    g.ext = ext := by
  have := List.find?_some h
  simpa using this

/-- What a bucket holds is a client. -/
theorem mem_clients_of_mem_bucket {r : Registry} {kind : InterestKind} {c : Client}
    (h : c ∈ r.bucket kind) : c ∈ r.clients := by
  unfold bucket at h
  cases hl : r.buckets.lookup kind with
  | none => rw [hl] at h; simp at h
  | some cs =>
      rw [hl] at h
      obtain ⟨before, after, hb, _⟩ := List.lookup_eq_some_iff.mp hl
      have hc : c ∈ cs := by simpa using h
      simp only [clients, hb, List.flatMap_append, List.flatMap_cons, List.mem_append]
      exact .inr (.inl hc)

theorem mem_clients_of_mem_covering {r : Registry} {p : Packet} {c : Client}
    (h : c ∈ r.covering p) : c ∈ r.clients := by
  unfold covering at h
  rw [List.mem_append] at h
  cases h with
  | inl hn => exact mem_clients_of_mem_bucket hn
  | inr ht =>
      split at ht
      · exact mem_clients_of_mem_bucket ht
      · cases ht

/-- Whoever matches a packet is a client that accepts it. -/
theorem mem_matching {r : Registry} {p : Packet} {direction : Direction} {c : Client}
    (h : c ∈ r.matching p direction) : c ∈ r.clients ∧ c.interest.accepts p direction = true := by
  unfold matching at h
  rw [List.mem_mergeSort, List.mem_filter] at h
  exact ⟨mem_clients_of_mem_covering h.1, h.2⟩

/-- Whoever matches a packet is served. -/
theorem Sound.serves_of_mem_matching {r : Registry} (hr : r.Sound) {p : Packet}
    {direction : Direction} {c : Client} (h : c ∈ r.matching p direction) : r.Serves c :=
  hr c (mem_matching h).1

/-! ## taking out -/

/-- A name that is taken out is not registered. -/
theorem get?_remove_self (r : Registry) (ext : String) : (r.remove ext).get? ext = none := by
  simp [get?, remove, List.find?_eq_none]

/-- The others stay registered as they are. -/
theorem get?_remove_of_ne (r : Registry) {ext name : String} (h : name ≠ ext) :
    (r.remove ext).get? name = r.get? name := by
  simp only [get?, remove, List.find?_filter]
  congr 1
  funext g
  by_cases hg : g.ext = name
  · simp [hg, h]
  · simp [hg]

/-- Taking a name out takes all its clients, and no others. -/
theorem mem_clients_remove (r : Registry) (ext : String) (c : Client) :
    c ∈ (r.remove ext).clients ↔ c ∈ r.clients ∧ c.ext ≠ ext := by
  simp only [clients, remove, List.mem_flatMap, List.mem_filter, List.mem_map]
  constructor
  · rintro ⟨_, ⟨⟨e, he, rfl⟩, _⟩, hc⟩
    simp only [List.mem_filter, decide_eq_true_eq] at hc
    exact ⟨⟨e, he, hc.1⟩, hc.2⟩
  · rintro ⟨⟨e, he, hc⟩, hne⟩
    have hm : c ∈ e.2.filter (·.ext ≠ ext) := List.mem_filter.mpr ⟨hc, by simpa using hne⟩
    exact ⟨_, ⟨⟨e, he, rfl⟩, by simpa using List.ne_nil_of_mem hm⟩, hm⟩

/-- Those that are left are served as before. -/
theorem Sound.remove {r : Registry} (hr : r.Sound) (ext : String) : (r.remove ext).Sound := by
  intro c hc
  obtain ⟨hc, hne⟩ := (mem_clients_remove r ext c).mp hc
  exact (hr c hc).of_get? (get?_remove_of_ne r hne)

/-! ## putting in -/

/-- A bucket with a client put in holds it and what it held. -/
theorem mem_insertClient (c d : Client) (cs : List Client) :
    d ∈ insertClient c cs ↔ d = c ∨ d ∈ cs := by
  induction cs with
  | nil => simp [insertClient]
  | cons e es ih =>
      unfold insertClient
      split
      · rw [List.mem_cons, ih, List.mem_cons]
        exact or_left_comm
      · rw [List.mem_cons]

theorem mem_flatMap_addClient (c d : Client) (bs : List (InterestKind × List Client)) :
    d ∈ (addClient c bs).flatMap (·.2) ↔ d = c ∨ d ∈ bs.flatMap (·.2) := by
  induction bs with
  | nil => simp [addClient]
  | cons b bs ih =>
      obtain ⟨kind, cs⟩ := b
      unfold addClient
      split
      · simp only [List.flatMap_cons, List.mem_append, mem_insertClient, or_assoc]
      · simp only [List.flatMap_cons, List.mem_append, ih]
        exact or_left_comm

/-- Filing clients leaves the registrations alone. -/
theorem registrations_addInterests (r : Registry) (ext : String) (session : Nat)
    (is : List Interest) : (r.addInterests ext session is).registrations = r.registrations := by
  induction is generalizing r with
  | nil => rfl
  | cons i is ih => unfold addInterests; rw [ih]

theorem lastSession_addInterests (r : Registry) (ext : String) (session : Nat)
    (is : List Interest) : (r.addInterests ext session is).lastSession = r.lastSession := by
  induction is generalizing r with
  | nil => rfl
  | cons i is ih => unfold addInterests; rw [ih]

/-- What is added is an interest of the session; everything else was there before. -/
theorem mem_clients_addInterests {r : Registry} {ext : String} {session : Nat} {is : List Interest}
    {c : Client} (h : c ∈ (r.addInterests ext session is).clients) :
    c ∈ r.clients ∨ (c.ext = ext ∧ c.session = session ∧ c.interest ∈ is) := by
  induction is generalizing r with
  | nil => exact .inl h
  | cons i is ih =>
      unfold addInterests at h
      cases ih h with
      | inl hold =>
          cases (mem_flatMap_addClient _ _ _).mp hold with
          | inl hc => subst hc; exact .inr ⟨rfl, rfl, List.mem_cons_self⟩
          | inr hc => exact .inl hc
      | inr hnew => exact .inr ⟨hnew.1, hnew.2.1, List.mem_cons_of_mem i hnew.2.2⟩

/-- A registration is the last one of all, in place of the old one of its name. -/
theorem registrations_register (r : Registry) (ext : String) (is : List Interest) :
    (r.register ext is).registrations =
      (r.remove ext).registrations ++ [⟨ext, r.lastSession + 1, is⟩] := by
  unfold register
  simp only [registrations_addInterests]

/-- Sessions are numbered one after another. -/
theorem lastSession_register (r : Registry) (ext : String) (is : List Interest) :
    (r.register ext is).lastSession = r.lastSession + 1 := by
  unfold register
  simp only [lastSession_addInterests]

/-- A new registration is found under its name. -/
theorem get?_register_self (r : Registry) (ext : String) (is : List Interest) :
    (r.register ext is).get? ext = some ⟨ext, r.lastSession + 1, is⟩ := by
  have hnone : (r.remove ext).registrations.find? (·.ext = ext) = none := get?_remove_self r ext
  unfold get?
  rw [registrations_register, List.find?_append, hnone]
  simp

/-- The others are found as before. -/
theorem get?_register_of_ne (r : Registry) {ext name : String} (is : List Interest)
    (h : name ≠ ext) : (r.register ext is).get? name = r.get? name := by
  rw [← get?_remove_of_ne r h]
  unfold get?
  rw [registrations_register, List.find?_append]
  simp [Ne.symm h]

/-- The clients of a new registration are served, and so are those that stay. -/
theorem Sound.register {r : Registry} (hr : r.Sound) (ext : String) (is : List Interest) :
    (r.register ext is).Sound := by
  intro c hc
  -- the added session is the one that `get?` finds; the clients of other names are kept
  have hc' : c ∈ (addInterests { r.remove ext with lastSession := r.lastSession + 1 } ext
      (r.lastSession + 1) is).clients := hc
  cases mem_clients_addInterests hc' with
  | inl hold =>
      obtain ⟨hold, hne⟩ := (mem_clients_remove r ext c).mp hold
      exact (hr c hold).of_get? (get?_register_of_ne r is hne)
  | inr hnew =>
      obtain ⟨hext, hsession, hi⟩ := hnew
      refine ⟨⟨ext, r.lastSession + 1, is⟩, ?_, hsession.symm, hi⟩
      rw [hext, get?_register_self]

end Intercept.Registry
