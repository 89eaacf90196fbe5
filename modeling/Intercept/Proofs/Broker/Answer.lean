import Intercept.Proofs.Broker.Correlations
import Intercept.Proofs.Broker.Ids
import Intercept.Proofs.Broker.Refusal
import Intercept.Proofs.Broker.Roster
import Intercept.Proofs.Broker.Thread

/-!
# Intercept.Proofs.Broker.Answer

Which answers are taken, and which come too late.

1. An answer for a chain that waits is taken from the client that got the last
   frame of the chain, and from nobody else (`respond_holder`,
   `respond_not_holder`).
2. Whatever resolves a hand-over stands directly behind it in the thread
   (`Run.resolved`), so nothing else does.
3. From then on the chain is with clients of other keys.  While the session
   lasts, its interest ids tell them apart, so that a later answer names no
   chain or somebody else's (`Run.respond_resolved`).
-/

namespace Intercept

/-! ## last notes -/

/-- Behind the last note of a thread nothing is about the chain. -/
theorem exists_append_of_getLast?_thread {id : UInt64} {J : List Note} {n : Note}
    (h : (thread id J).getLast? = some n) :
    ∃ p q, J = p ++ n :: q ∧ ∀ m ∈ q, m.concerns id = false := by
  rw [getLast?_thread, List.getLast?_eq_some_iff] at h
  obtain ⟨L, hL⟩ := h
  obtain ⟨before, after, rfl, _, hafter⟩ := List.filter_eq_append_iff.mp hL
  obtain ⟨l, q, rfl, _, _, hq⟩ := List.filter_eq_cons_iff.mp hafter
  refine ⟨before ++ l, q, by rw [List.append_assoc], fun m hm => ?_⟩
  exact Bool.eq_false_iff.mpr (List.filter_eq_nil_iff.mp hq m hm)

namespace Broker

variable {settings : BrokerSettings} {J : List Note} {b : Broker}

/-! ## what becomes of an answer -/

/-- The holder's answer for its interest is taken. -/
theorem respond_holder {a : ActiveChain} {r : Response} {holder : Client}
    (ha : b.chain? r.packetId = some a) (hh : a.chain.holder = some holder)
    (hid : holder.interest.id = r.interestId) :
    (b.respond holder.ext r).1 = .ok () ∧
      b.respondNotes holder.ext r = (b.count .directives [("op", r.directive.name)]).applyNotes
        r.packetId (.answer holder.ext r.interestId) r.directive := by
  refine ⟨by rw [respond_of_holder ha hh hid], ?_⟩
  unfold respondNotes
  simp [ha, hh, hid]

/-- Any other answer for a chain that waits is refused. -/
theorem respond_not_holder {a : ActiveChain} {ext : String} {r : Response} {holder : Client}
    (ha : b.chain? r.packetId = some a) (hh : a.chain.holder = some holder)
    (hne : ¬(holder.ext = ext ∧ holder.interest.id = r.interestId)) :
    (∃ reason, b.Refuses reason (.notChainHolder ext r.packetId.toNat) (b.respond ext r)) ∧
      b.respondNotes ext r = [] := by
  by_cases hext : holder.ext = ext
  · have hid : holder.interest.id ≠ r.interestId := fun hid => hne ⟨hext, hid⟩
    have hrespond : b.respond ext r =
        b.reject "stale_hop" (.notChainHolder ext r.packetId.toNat) := by
      simp [respond, ha, hh, hext, hid]
    exact ⟨⟨_, refuses_of_reject hrespond⟩, by simp [respondNotes, ha, hh, hext, hid]⟩
  · have hrespond : b.respond ext r =
        b.reject "not_holder" (.notChainHolder ext r.packetId.toNat) := by
      simp [respond, ha, hh, hext]
    exact ⟨⟨_, refuses_of_reject hrespond⟩, by simp [respondNotes, ha, hh, hext]⟩

/-- So is one for a copy that somebody else has got, or that was sent for another interest. -/
theorem respond_not_owner {c : Correlation} {ext : String} {r : Response}
    (hc : b.chain? r.packetId = none) (ho : b.correlation? r.packetId = some c)
    (hne : ¬(c.ext = ext ∧ c.interestId = r.interestId)) :
    b.Refuses "not_holder" (.notChainHolder ext r.packetId.toNat) (b.respond ext r) := by
  have hrespond : b.respond ext r =
      b.reject "not_holder" (.notChainHolder ext r.packetId.toNat) := by
    unfold respond
    simp only [hc, ho, if_neg hne]
  exact refuses_of_reject hrespond

/-- So is one that names neither a chain nor a copy. -/
theorem respond_unknown (ext : String) {r : Response} (hc : b.chain? r.packetId = none)
    (ho : b.correlation? r.packetId = none) :
    b.Refuses "unknown_chain" (.unknownChain r.packetId.toNat) (b.respond ext r) ∧
      b.respondNotes ext r = [] := by
  have hrespond : b.respond ext r =
      b.reject "unknown_chain" (.unknownChain r.packetId.toNat) := by
    simp [respond, hc, ho]
  exact ⟨refuses_of_reject hrespond, by simp [respondNotes, hc, ho]⟩

/-- A chain that waits is with the client that got its last frame. -/
theorem Run.holder_of_chain (h : Run settings J b) {id : UInt64} {a : ActiveChain}
    (ha : b.chain? id = some a) :
    ∃ client, (thread id J).getLast? = some (.handed a.chain client true) ∧
      a.chain.holder = some client := by
  obtain ⟨hmem, rfl⟩ := chain?_eq_some ha
  exact h.threaded.waits a hmem (fun f hf => by cases hf)

/-! ## what resolves a hand-over -/

/-- **A hand-over is resolved by what comes directly behind it**: the directive that is applied
before the chain is handed on is the first thing about the chain since, and its cause fits. -/
theorem Run.resolved (h : Run settings J b) {p s : List Note} {c c' : Chain} {client : Client}
    {cause : Cause} {d : Directive}
    (hp : p ++ .handed c client true :: s ++ [.directed c' cause d] <+: J) (hid : c'.id = c.id)
    (hs : ∀ c'' client' sent, .handed c'' client' sent ∈ s → c''.id ≠ c.id) :
    c' = c ∧ cause.Fits settings client true d ∧ ∀ n ∈ s, n.concerns c.id = false := by
  obtain ⟨_, _, l, ht, _, _, hl, hfollows⟩ := h.follows_of_note hp rfl rfl
  rw [← ht, hid, getLast?_thread, List.filter_append, List.filter_cons_of_pos (by simp [
    Note.concerns, Note.chain?])] at hl
  cases hf : s.filter (·.concerns c.id) with
  | nil =>
      rw [hf, List.getLast?_append_cons, List.getLast?_singleton] at hl
      cases hl
      cases hfollows with
      | directed _ hfits =>
          exact ⟨rfl, hfits, fun n hn => Bool.eq_false_iff.mpr (List.filter_eq_nil_iff.mp hf n hn)⟩
  | cons m ms =>
      -- the last note about the chain would be a later hand-over
      rw [hf, List.getLast?_append_cons, List.getLast?_cons_cons, ← hf] at hl
      have hmem : l ∈ s := (List.mem_filter.mp (List.mem_of_getLast? hl)).1
      cases hfollows with
      | directed _ _ => exact absurd hid (hs _ _ _ hmem)

/-! ## answers that come too late -/

/-- A chain has started before anything else is told of it. -/
theorem Run.started_before (h : Run settings J b) {p : List Note} {n : Note} {c : Chain}
    (hp : p ++ [n] <+: J) (hc : n.chain? = some c) (hs : n.starts = false) :
    ∃ c₀, .started c₀ ∈ p ∧ c₀.id = c.id := by
  obtain ⟨c₀, T, _, ht, _, _, _, _⟩ := h.follows_of_note hp hc hs
  have hmem : Note.started c₀ ∈ thread c.id p := by
    rw [ht]
    exact List.mem_cons_self
  obtain ⟨hp, hid⟩ := mem_thread hmem
  exact ⟨c₀, hp, by simpa [Note.concerns, Note.chain?] using hid⟩

/-- Whoever a chain goes to after it was handed to a client has another key, as long as the chain
does not start anew. -/
theorem Run.key_ne_of_later (h : Run settings J b) {p q : List Note} {c c' : Chain}
    {client client' : Client} {sent sent' : Bool} (hJ : J = p ++ .handed c client sent :: q)
    (hq : ∀ n ∈ q, n.concerns c.id = true → n.starts = false)
    (hlater : .handed c' client' sent' ∈ q) (hid : c'.id = c.id) : client.key ≠ client'.key := by
  have hnodup := h.counted.lawful.nodup_visits c.id
  dsimp only at hnodup
  rw [hJ, List.append_cons, visits_eq_thread, thread_append _ _ hq, List.filterMap_append,
    ← visits_eq_thread, visits_concat, List.map_append, List.nodup_append] at hnodup
  refine hnodup.2.2 _ ?_ _ ?_
  · simp [Note.visited]
  · have hfilter : Note.handed c' client' sent' ∈ q.filter (·.concerns c.id) :=
      List.mem_filter.mpr ⟨hlater, by simp [Note.concerns, Note.chain?, hid]⟩
    exact List.mem_map_of_mem (List.mem_filterMap.mpr ⟨_, hfilter, rfl⟩)

/-- A chain whose id is given out once does not start anew after it was handed to somebody. -/
theorem Run.not_starts_of_count (h : Run settings J b) {p q : List Note} {c : Chain}
    {client : Client} {sent : Bool} (hJ : J = p ++ .handed c client sent :: q)
    (honce : (opened J).count c.id ≤ 1) :
    ∀ n ∈ q, n.concerns c.id = true → n.starts = false := by
  intro n hn hconcerns
  have hhere : p ++ [.handed c client sent] <+: J := ⟨q, by rw [hJ]; simp⟩
  obtain ⟨c₀, hstarted, hc₀⟩ := h.started_before hhere rfl rfl
  rw [hJ, List.append_cons] at honce
  have hnot := not_mem_opened_of_count honce (by
    rw [opened_append]
    exact List.mem_append_left _ (mem_opened hstarted (congrArg some hc₀)))
  cases n with
  | started c₁ =>
      have hc₁ : c₁.id = c.id := by simpa [Note.concerns, Note.chain?] using hconcerns
      exact absurd (mem_opened hn (congrArg some hc₁)) hnot
  | _ => rfl

/-- A chain whose id is given out once shares it with no copy. -/
theorem Run.not_copied_of_count (h : Run settings J b) {c : Chain} {client client' : Client}
    {sent sent' : Bool} {frame : Frame} (hmem : .handed c client sent ∈ J)
    (honce : (opened J).count c.id ≤ 1) (hcopied : .copied client' frame sent' ∈ J) :
    frame.packetId ≠ c.id := by
  intro hid
  obtain ⟨p, q, rfl⟩ := List.append_of_mem hmem
  obtain ⟨c₀, hstarted, hc₀⟩ :=
    h.started_before (p := p) (n := .handed c client sent) ⟨q, by simp⟩ rfl rfl
  cases eq_of_count_opened honce (List.mem_append_left _ hstarted) hcopied (congrArg some hc₀)
    (congrArg some hid)

/-- **An answer that comes after the hand-over has been resolved is refused**, as long as the
extension has not registered anew, its interest ids tell its interests apart, and the id is that of
this chain only. -/
theorem Run.respond_resolved (h : Run settings J b) {p q : List Note} {c c' : Chain}
    {client : Client} {sent : Bool} {cause : Cause} {d' : Directive}
    (hJ : J = p ++ .handed c client sent :: q) (hresolved : .directed c' cause d' ∈ q)
    (hid : c'.id = c.id)
    (hsession : ∀ g, b.registry.get? client.ext = some g → g.session = client.session)
    (hinterests : ∀ g ∈ b.registry.registrations, (g.interests.map (·.id)).Nodup)
    (honce : (opened J).count c.id ≤ 1) (d : Directive) :
    (∃ reason, b.Refuses reason
      (if (b.chain? c.id).isSome then .notChainHolder client.ext c.id.toNat
        else .unknownChain c.id.toNat)
      (b.respond client.ext ⟨c.id, client.interest.id, d⟩)) ∧
      b.respondNotes client.ext ⟨c.id, client.interest.id, d⟩ = [] := by
  have hmem : .handed c client sent ∈ J := by
    rw [hJ]
    exact List.mem_append_right p List.mem_cons_self
  cases hchain : b.chain? c.id with
  | some a =>
      obtain ⟨holder, hlast, hholder⟩ := h.holder_of_chain hchain
      -- the last hand-over comes after the resolution
      have hlater : Note.handed a.chain holder true ∈ q := by
        have hdirected : Note.directed c' cause d' ∈ q.filter (·.concerns c.id) :=
          List.mem_filter.mpr ⟨hresolved, by simp [Note.concerns, Note.chain?, hid]⟩
        rw [getLast?_thread, hJ, List.append_cons, List.filter_append,
          List.getLast?_append_of_ne_nil _ (List.ne_nil_of_mem hdirected)] at hlast
        exact (List.mem_filter.mp (List.mem_of_getLast? hlast)).1
      have hkey := h.key_ne_of_later hJ (h.not_starts_of_count hJ honce) hlater
        (chain?_eq_some hchain).2
      have hne : ¬(holder.ext = client.ext ∧ holder.interest.id = client.interest.id) := by
        rintro ⟨hext, hiid⟩
        obtain ⟨g, hg, _, hgi⟩ := h.reachable.tended.serves hchain hholder
        rw [hext] at hg
        have hcurrent := (Registry.isCurrent_iff _ _ _).mpr ⟨g, hg, hsession g hg⟩
        obtain ⟨g', hg', _, hgi'⟩ := (h.recalls hmem).2 hcurrent
        rw [hg] at hg'
        cases hg'
        have hsame : holder.interest = client.interest :=
          List.inj_on_of_nodup_map (hinterests g (List.mem_of_find?_eq_some hg)) hgi hgi' hiid
        exact hkey (by rw [Client.key, Client.key, hext, hsame])
      exact respond_not_holder (r := ⟨c.id, client.interest.id, d⟩) hchain hholder hne
  | none =>
      have hcopy : b.correlation? c.id = none := by
        cases ho : b.correlation? c.id with
        | none => rfl
        | some o =>
            obtain ⟨owner, frame, hcopied, hframe, _⟩ := h.known o (List.mem_of_find?_eq_some ho)
            exact absurd (hframe.trans (correlation?_eq_some ho))
              (h.not_copied_of_count hmem honce hcopied)
      obtain ⟨hrespond, hnotes⟩ :=
        respond_unknown client.ext (r := ⟨c.id, client.interest.id, d⟩) hchain hcopy
      exact ⟨⟨_, hrespond⟩, hnotes⟩

/-- **An answer is taken from the client that got the last frame of the chain, and once.**  While a
chain waits, its last frame went to its holder, whose answer for that interest is taken and nobody
else's.  Each frame is resolved by at most one directive, an answer of the client that got it or the
fallback for a timeout or a disconnect.  Once it is resolved, any later answer to it is refused and
moves no chain, as long as the extension has not registered anew, interest ids are unique within its
registration and the id is that of one chain; ids are, until 64 bits are too few. -/
theorem Run.answered_once (h : Run settings J b) :
    (∀ (ext : String) (r : Response) (a : ActiveChain), b.chain? r.packetId = some a →
      ∃ p client q, J = p ++ .handed a.chain client true :: q ∧
        (∀ n ∈ q, n.concerns r.packetId = false) ∧
        ((b.respond ext r).1 = .ok () ↔ client.ext = ext ∧ client.interest.id = r.interestId) ∧
        ((b.respond ext r).1 = .ok () → (b.notes (.respond ext r)).head? =
          some (.directed a.chain (.answer ext r.interestId) r.directive)) ∧
        ((b.respond ext r).1 ≠ .ok () → b.notes (.respond ext r) = [] ∧
          ∃ reason, b.Refuses reason (.notChainHolder ext r.packetId.toNat) (b.respond ext r))) ∧
    (∀ (p s : List Note) (c c' : Chain) (client : Client) (cause : Cause) (d : Directive),
      p ++ .handed c client true :: s ++ [.directed c' cause d] <+: J → c'.id = c.id →
      (∀ c'' client' sent, .handed c'' client' sent ∈ s → c''.id ≠ c.id) →
      c' = c ∧ cause.Fits settings client true d ∧ ∀ n ∈ s, n.concerns c.id = false) ∧
    (∀ (p q : List Note) (c c' : Chain) (client : Client) (cause : Cause) (d' d : Directive),
      J = p ++ .handed c client true :: q → .directed c' cause d' ∈ q → c'.id = c.id →
      (∀ g, b.registry.get? client.ext = some g → g.session = client.session) →
      (∀ g ∈ b.registry.registrations, (g.interests.map (·.id)).Nodup) →
      (opened J).count c.id ≤ 1 →
      (∃ reason, b.Refuses reason
        (if (b.chain? c.id).isSome then .notChainHolder client.ext c.id.toNat
          else .unknownChain c.id.toNat)
        (b.respond client.ext ⟨c.id, client.interest.id, d⟩)) ∧
        b.notes (.respond client.ext ⟨c.id, client.interest.id, d⟩) = []) ∧
    (b.nextId ≤ UInt64.size → ∀ id, (opened J).count id ≤ 1) := by
  refine ⟨fun ext r a ha => ?_, fun p s c c' client cause d => h.resolved,
    fun p q c c' client cause d' d hJ hresolved hid hsession hinterests honce =>
      h.respond_resolved hJ hresolved hid hsession hinterests honce d,
    fun hb id => List.nodup_iff_count_le_one.mp (h.nodup_opened hb) id⟩
  obtain ⟨client, hlast, hholder⟩ := h.holder_of_chain ha
  obtain ⟨p, q, hJ, hq⟩ := exists_append_of_getLast?_thread hlast
  refine ⟨p, client, q, hJ, hq, ?_⟩
  by_cases hfits : client.ext = ext ∧ client.interest.id = r.interestId
  · obtain ⟨rfl, hiid⟩ := hfits
    obtain ⟨hok, hnotes⟩ := respond_holder ha hholder hiid
    refine ⟨⟨fun _ => ⟨rfl, hiid⟩, fun _ => hok⟩, fun _ => ?_, fun hne => absurd hok hne⟩
    have hcounted : (b.count .directives [("op", r.directive.name)]).chain? r.packetId = some a :=
      ha
    rw [notes, hnotes, applyNotes, hcounted]
    rfl
  · obtain ⟨⟨reason, hrefuses⟩, hnotes⟩ := respond_not_holder ha hholder hfits
    have hno : (b.respond ext r).1 ≠ .ok () := by
      intro hok
      rw [hrefuses.error] at hok
      cases hok
    exact ⟨⟨fun hok => absurd hok hno, fun hyes => absurd hyes hfits⟩, fun hok => absurd hok hno,
      fun _ => ⟨hnotes, reason, hrefuses⟩⟩

/-- One extension is asked about a chain for two interests, one after the other. Its answer for the
first one, given once more, is refused while the chain waits for the second. -/
theorem answered_once_for_each_interest :
    ∃ J b p q c client, Run {} J b ∧ J = p ++ .handed c client true :: q ∧
    .directed c (.answer "first" 1) .pass ∈ q ∧
    b.chains.map (·.chain.holder.map (·.interest.id)) = [some 2] ∧
    (∃ reason, b.Refuses reason (.notChainHolder "first" 1) (b.respond "first" ⟨1, 1, .cancel⟩)) ∧
    b.notes (.respond "first" ⟨1, 1, .cancel⟩) = [] := by
  let text : Interest := { id := 1, kind := .net .genericText }
  let less : Interest := { text with id := 2, priority := -1 }
  let run : List Event := [
    .register "first" [text, less] 4, .submit [2, 0, 0, 0, 0] .clientToServer 0,
    .respond "first" ⟨1, 1, .pass⟩]
  let c₀ : Chain := {
    id := 1, bytes := [2, 0, 0, 0, 0], direction := .clientToServer, flags := 0
    packet := ⟨.genericText, .table { rows := [], index := [], trailingNewline := false }⟩ }
  let first : Client := ⟨"first", text, 1, 1⟩
  let second : Client := ⟨"first", less, 2, 1⟩
  let c : Chain := c₀.visit first
  have h : Run {} _ (run.foldl Broker.step (.new {})) := Run.new.foldl run
  have hJ : [] ++ (Broker.new {}).journal run =
      [.happened (.register "first" [text, less] 4),
        .happened (.submit [2, 0, 0, 0, 0] .clientToServer 0), .started c₀] ++
      .handed c first true :: [.happened (.respond "first" ⟨1, 1, .pass⟩),
        .directed c (.answer "first" 1) .pass, .handed (c.hit.visit second) second true] := by
    cbv
  have hregistered : (run.foldl Broker.step (.new {})).registry.registrations =
      [⟨"first", 1, [text, less]⟩] := by cbv
  have hsession : ∀ g, (run.foldl Broker.step (.new {})).registry.get? "first" = some g →
      g.session = 1 := by
    intro g hg
    rw [Registry.get?, hregistered] at hg
    cases hg
    rfl
  have hinterests : ∀ g ∈ (run.foldl Broker.step (.new {})).registry.registrations,
      (g.interests.map (·.id)).Nodup := by
    intro g hg
    rw [hregistered, List.mem_singleton] at hg
    rw [hg]
    decide
  have hdrawn : (run.foldl Broker.step (.new {})).nextId = 2 := by cbv
  have hpending : ((run.foldl Broker.step (.new {})).chain? c.id).isSome = true := by cbv
  obtain ⟨_, _, hlate, hids⟩ := h.answered_once
  obtain ⟨⟨reason, hrespond⟩, hnotes⟩ := hlate _ _ c c first (.answer "first" 1) .pass .cancel hJ
    (by simp) rfl hsession hinterests (hids (by rw [hdrawn]; decide) 1)
  rw [if_pos hpending] at hrespond
  exact ⟨_, _, _, _, c, first, h, hJ, by simp, by cbv, ⟨reason, hrespond⟩, hnotes⟩

end Broker

end Intercept
