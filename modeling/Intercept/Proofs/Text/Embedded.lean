import Mathlib
import Intercept.Text.Json

/-!
# Intercept.Proofs.Text.Embedded

Canonical values and embedded texts.

1. A value is `Ordered` if the keys of each of its objects ascend. Such a
   value is its own canonical form (`Ordered.canonical_eq`).
2. A value `Embeds` if one of its objects starts with the key that marks an
   embedded text. Without one, expanding changes nothing
   (`Ordered.expandWith?_eq`).
3. With one, expanding an ordered value never gives it back: no embedded text
   spells an object that has nothing but that key (`ne_of_embedded?`). Hence
   `Ordered.expand?_iff`.
-/

namespace Intercept.Json

variable {v w : Json} {vs ws : List Json} {ms ns seen : List (String × Json)} {key : String}
  {read : String → Option Json}

/-! ## canonical values -/

/-- In every object the keys ascend. -/
inductive Ordered : Json → Prop
  | null : Ordered null
  | bool (b : Bool) : Ordered (bool b)
  | int (i : Int) : Ordered (int i)
  | real (x : Binary64) : Ordered (real x)
  | str (s : String) : Ordered (str s)
  | arr {items : List Json} (h : ∀ v ∈ items, Ordered v) : Ordered (arr items)
  | obj {members : List (String × Json)} (keys : (members.map Prod.fst).Pairwise (· < ·))
      (h : ∀ m ∈ members, Ordered m.2) : Ordered (obj members)

/-- A key behind all others is put at the end. -/
theorem insertMember_of_forall_lt (h : ∀ m ∈ seen, m.1 < key) :
    insertMember key v seen = seen ++ [(key, v)] := by
  induction seen with
  | nil => rfl
  | cons m seen ih =>
    obtain ⟨hm, hseen⟩ := List.forall_mem_cons.mp h
    rw [insertMember, if_neg hm.ne', if_neg hm.asymm, ih hseen, List.cons_append]

theorem canonicalItems_eq_map (vs : List Json) : canonicalItems vs = vs.map canonical := by
  induction vs with
  | nil => rfl
  | cons v vs ih => rw [canonicalItems, ih, List.map_cons]

/-- Members whose keys ascend are put behind one another. -/
theorem canonicalMembers_eq (h : ((seen ++ ms).map Prod.fst).Pairwise (· < ·)) :
    canonicalMembers seen ms = seen ++ ms.map fun m => (m.1, m.2.canonical) := by
  induction ms generalizing seen with
  | nil => simp [canonicalMembers]
  | cons m ms ih =>
    have hlast : ∀ n ∈ seen, n.1 < m.1 := by
      rw [List.map_append, List.pairwise_append] at h
      exact fun n hn => h.2.2 _ (List.mem_map_of_mem hn) _ (by simp)
    rw [canonicalMembers, insertMember_of_forall_lt hlast, ih (by simpa using h)]
    simp

/-- A value in order is its own canonical form. -/
theorem Ordered.canonical_eq (h : Ordered v) : v.canonical = v := by
  induction h with
  | null | bool | int | real | str => rfl
  | arr h ih => rw [canonical, canonicalItems_eq_map, List.map_congr_left ih, List.map_id']
  | obj hkeys h ih =>
    rename_i members
    have hsame : ∀ m ∈ members, (m.1, m.2.canonical) = m :=
      fun m hm => congrArg (Prod.mk m.1) (ih m hm)
    rw [canonical, canonicalMembers_eq (by simpa using hkeys), List.map_congr_left hsame,
      List.map_id', List.nil_append]

/-- No key is lost. -/
theorem mem_keys_insertMember {k : String} :
    k ∈ (insertMember key v seen).map Prod.fst ↔ k = key ∨ k ∈ seen.map Prod.fst := by
  induction seen with
  | nil => simp [insertMember]
  | cons m seen ih =>
    rw [insertMember]
    split
    · next heq => simp [heq]
    · split
      · simp
      · simp only [List.map_cons, List.mem_cons, ih]
        exact or_left_comm

/-- A canonical object has the keys that were there, and no others. -/
theorem mem_keys_canonicalMembers {k : String} :
    k ∈ (canonicalMembers seen ms).map Prod.fst ↔ k ∈ seen.map Prod.fst ∨ k ∈ ms.map Prod.fst := by
  induction ms generalizing seen with
  | nil => simp [canonicalMembers]
  | cons m ms ih =>
    rw [canonicalMembers, ih, mem_keys_insertMember, List.map_cons, List.mem_cons,
      or_comm (a := k = m.1), or_assoc]

/-! ## expanding -/

/-- One of the objects in the value, or the value itself, stands for an embedded text. -/
inductive Embeds : Json → Prop
  | here {members : List (String × Json)} (h : isEmbedding members = true) : Embeds (obj members)
  | item {items : List Json} {v : Json} (hv : v ∈ items) (h : Embeds v) : Embeds (arr items)
  | member {members : List (String × Json)} {m : String × Json} (hm : m ∈ members)
      (h : Embeds m.2) : Embeds (obj members)

/-- Items are expanded one by one. -/
theorem expandItems?_eq_some : expandItems? read vs = some ws ↔
    List.Forall₂ (fun v w => expandWith? read v = some w) vs ws := by
  induction vs generalizing ws with
  | nil => simp [expandItems?, eq_comm]
  | cons v vs ih =>
    simp only [expandItems?, Option.bind_eq_bind, Option.bind_eq_some_iff, Option.pure_def,
      Option.some.injEq, List.forall₂_cons_left_iff, ih, exists_and_left, eq_comm (a := ws)]

theorem expandMembers?_eq_some : expandMembers? read ms = some ns ↔
    List.Forall₂ (fun m n => m.1 = n.1 ∧ expandWith? read m.2 = some n.2) ms ns := by
  induction ms generalizing ns with
  | nil => simp [expandMembers?, eq_comm]
  | cons m ms ih =>
    simp only [expandMembers?, Option.bind_eq_bind, Option.bind_eq_some_iff, Option.pure_def,
      Option.some.injEq, List.forall₂_cons_left_iff, ih, exists_and_left, eq_comm (a := ns)]
    constructor
    · rintro ⟨w, hw, ns, hns, rfl⟩
      exact ⟨(m.1, w), ⟨rfl, hw⟩, ns, hns, rfl⟩
    · rintro ⟨⟨-, w⟩, ⟨rfl, hw⟩, ns, hns, rfl⟩
      exact ⟨w, hw, ns, hns, rfl⟩

/-- An object that embeds nothing is expanded member by member. -/
theorem expandWith?_of_plain (h : isEmbedding ms = false) :
    expandWith? read (obj ms) = (expandMembers? read ms).map obj := by
  rw [expandWith?.eq_def]
  simp only [h, Bool.false_eq_true, if_false]

/-- One that embeds a text has that alone, and is what the text spells. -/
theorem exists_text_of_embedding (h : isEmbedding ms = true)
    (hw : expandWith? read (obj ms) = some w) :
    ∃ s, ms = [(embeddedKey, str s)] ∧ read s = some w := by
  rw [expandWith?.eq_def] at hw
  simp only [h, if_true] at hw
  split at hw
  · next k s =>
    have hk : k = embeddedKey := of_decide_eq_true h
    exact ⟨s, by rw [hk], hw⟩
  · cases hw

/-- Where no object stands for an embedded text, there is nothing to put in its place. -/
theorem Ordered.expandWith?_eq (h : Ordered v) (hv : ¬Embeds v) : expandWith? read v = some v := by
  induction h with
  | null | bool | int | real | str => rfl
  | arr h ih =>
    rename_i items
    have hitems : expandItems? read items = some items := expandItems?_eq_some.mpr <|
      List.forall₂_same.mpr fun v hv' => ih v hv' fun hembeds => hv (.item hv' hembeds)
    rw [expandWith?, hitems, Option.map_some]
  | obj hkeys h ih =>
    rename_i members
    have hmembers : expandMembers? read members = some members := expandMembers?_eq_some.mpr <|
      List.forall₂_same.mpr fun m hm => ⟨rfl, ih m hm fun hembeds => hv (.member hm hembeds)⟩
    have hplain : isEmbedding members = false :=
      Bool.eq_false_iff.mpr fun hembedding => hv (.here hembedding)
    rw [expandWith?_of_plain hplain, hmembers, Option.map_some]

/-! ## embedded texts -/

/-- Whether an object embeds a text is up to its keys. -/
theorem isEmbedding_congr (h : ms.map Prod.fst = ns.map Prod.fst) :
    isEmbedding ms = isEmbedding ns := by
  cases ms <;> cases ns <;> simp_all [isEmbedding]

/-- Expanding leaves the keys as they are. -/
theorem keys_of_expandMembers? (h : expandMembers? read ms = some ns) :
    ms.map Prod.fst = ns.map Prod.fst := by
  have hmembers := (expandMembers?_eq_some.mp h).imp fun _ _ hm => hm.1
  exact List.forall₂_eq_eq_eq ▸ List.forall₂_map_left_iff.mpr
    (List.forall₂_map_right_iff.mpr hmembers)

/-- No value stands for an embedded text any more when it has been expanded. -/
theorem not_isEmbedding_of_expandWith?
    (hread : ∀ s ns, read s = some (obj ns) → isEmbedding ns = false)
    (h : expandWith? read v = some (obj ns)) : isEmbedding ns = false := by
  cases v with
  | null | bool | int | real | str => cases h
  | arr items =>
    rw [expandWith?, Option.map_eq_some_iff] at h
    obtain ⟨_, _, hne⟩ := h
    cases hne
  | obj ms =>
    by_cases hms : isEmbedding ms = true
    · obtain ⟨s, -, hs⟩ := exists_text_of_embedding hms h
      exact hread s ns hs
    · rw [Bool.not_eq_true] at hms
      rw [expandWith?_of_plain hms, Option.map_eq_some_iff] at h
      obtain ⟨ns', hns, ⟨⟩⟩ := h
      rwa [← isEmbedding_congr (keys_of_expandMembers? hns)]

/-- What an embedded text spells embeds nothing itself. -/
theorem not_isEmbedding_of_embedded? {depth : Nat} {s : String}
    (h : embedded? depth s = some (obj ns)) : isEmbedding ns = false := by
  induction depth generalizing s ns with
  | zero => cases h
  | succ depth ih =>
    obtain ⟨v, -, hv⟩ := Option.bind_eq_some_iff.mp h
    exact not_isEmbedding_of_expandWith? (fun s ns => ih) hv

/-- An embedded text never spells an object that has nothing but the key of embedded texts. -/
theorem ne_of_embedded? {depth : Nat} {s : String} (h : embedded? depth s = some w) (x : Json) :
    w.canonical ≠ obj [(embeddedKey, x)] := by
  intro hcanonical
  cases w with
  | null | bool | int | real | str | arr => cases hcanonical
  | obj ns =>
    have hplain := not_isEmbedding_of_embedded? h
    have hmembers : canonicalMembers [] ns = [(embeddedKey, x)] := obj.inj hcanonical
    cases ns with
    | nil => cases hmembers
    | cons n ns =>
      have hkey : n.1 ∈ (canonicalMembers [] (n :: ns)).map Prod.fst :=
        mem_keys_canonicalMembers.mpr (.inr List.mem_cons_self)
      rw [hmembers, List.map_singleton, List.mem_singleton] at hkey
      simp [isEmbedding, hkey] at hplain

/-- An entry of a list that a relation and then a function leave as it is, is left so by way of a
partner. -/
theorem exists_partner {α β : Type} {R : α → β → Prop} {f : β → α} {as : List α}
    {bs : List β} {a : α}
    (h : List.Forall₂ R as bs) (hf : bs.map f = as) (ha : a ∈ as) : ∃ b, R a b ∧ f b = a := by
  induction h with
  | nil => cases ha
  | cons hab _ ih =>
    obtain ⟨hhead, htail⟩ := List.cons.inj hf
    cases ha with
    | head => exact ⟨_, hab, hhead⟩
    | tail _ ha => exact ih htail ha

/-- An ordered value that expanding gives back stands for no embedded text, nor does anything in it.
-/
theorem Ordered.not_embeds
    (hread : ∀ s w x, read s = some w → w.canonical ≠ Json.obj [(embeddedKey, x)])
    (h : Ordered v) (hw : expandWith? read v = some w) (hback : w.canonical = v) : ¬Embeds v := by
  induction h generalizing w with
  | null | bool | int | real | str => nofun
  | arr h ih =>
    rw [expandWith?, Option.map_eq_some_iff] at hw
    obtain ⟨ws, hws, rfl⟩ := hw
    have hsame : ws.map canonical = _ := (canonicalItems_eq_map ws).symm.trans (Json.arr.inj hback)
    rintro (_ | ⟨hv, hembeds⟩)
    obtain ⟨w, hw, hback⟩ := exists_partner (expandItems?_eq_some.mp hws) hsame hv
    exact ih _ hv hw hback hembeds
  | obj hkeys h ih =>
    rename_i members
    by_cases hmembers : isEmbedding members = true
    · obtain ⟨s, rfl, hs⟩ := exists_text_of_embedding hmembers hw
      exact absurd hback (hread s w _ hs)
    · rw [Bool.not_eq_true] at hmembers
      rw [expandWith?_of_plain hmembers, Option.map_eq_some_iff] at hw
      obtain ⟨ns, hns, rfl⟩ := hw
      rw [keys_of_expandMembers? hns] at hkeys
      have hsame : ns.map (fun n => (n.1, n.2.canonical)) = members :=
        (canonicalMembers_eq (by simpa using hkeys)).symm.trans (Json.obj.inj hback)
      rintro (hembedding | _ | ⟨hm, hembeds⟩)
      · exact absurd hembedding (by simp [hmembers])
      · obtain ⟨n, ⟨-, hn⟩, hback⟩ := exists_partner (expandMembers?_eq_some.mp hns) hsame hm
        exact ih _ hm hn (congrArg Prod.snd hback) hembeds

/-- An ordered value comes back from being expanded and made canonical if and only if no object in
it stands for an embedded text. -/
theorem Ordered.expand?_iff (h : Ordered v) : v.expand?.map canonical = some v ↔ ¬Embeds v := by
  constructor
  · intro hback
    obtain ⟨w, hw, hback⟩ := Option.map_eq_some_iff.mp hback
    exact h.not_embeds (fun s w x hs => ne_of_embedded? hs x) hw hback
  · intro hplain
    rw [expand?, h.expandWith?_eq hplain, Option.map_some, h.canonical_eq]

end Intercept.Json
