import Intercept.Proofs.Broker.Calls
import Intercept.Proofs.Broker.Ids
import Intercept.Proofs.Broker.Standing

/-!
# Intercept.Proofs.Broker.Completion

Whoever hands in a packet is told what becomes of it, once.

```
Stage id J s call    how the chain id stands, and what its call has come to

pending ──→ owed ──→ told       the call waits in the first two and has been told in the third
   ↓          ↓
 alone ──→  lost                the caller has gone away
```

A turn of the broker moves a chain only from `pending` to `owed` and from
`alone` to `lost` (`Stage.turn`): a chain whose caller waits leaves the table
with its outcome kept.  The other three arrows are the doings of the caller.
-/

namespace Intercept

/-! ## what takes a chain out of the table -/

/-- Whether the note takes its chain out of the table. -/
def Note.closes : Note → Bool
  | ended .. | dropped _ => true
  | _ => false

/-- The notes that take the chain with this id out of the table. -/
def closings (id : UInt64) (J : List Note) : List Note :=
  J.filter fun n => n.closes && n.concerns id

theorem closings_append (id : UInt64) (J N : List Note) :
    closings id (J ++ N) = closings id J ++ closings id N := List.filter_append _ _

/-- Notes about other chains take this one nowhere. -/
theorem closings_of_silent {id : UInt64} {N : List Note} (h : ∀ n ∈ N, n.concerns id = false) :
    closings id N = [] :=
  List.filter_eq_nil_iff.mpr fun n hn => by simp [h n hn]

/-- A note about the chain takes it out, or does not. -/
theorem closings_concat {id : UInt64} (J : List Note) {n : Note} (h : n.concerns id = true) :
    closings id (J ++ [n]) = if n.closes then closings id J ++ [n] else closings id J := by
  cases hn : n.closes with
  | false => simp [closings, hn]
  | true => simp [closings, hn, h]

/-! ## stages -/

namespace Broker

/-- How a chain stands and what its call has come to, hand in hand. -/
inductive Stage (id : UInt64) (J : List Note) : Standing → Call → Prop where
  | pending {since} : closings id J = [] → Stage id J ⟨some ⟨true, since⟩, []⟩ (.waits id)
  | owed {c o} : closings id J = [.ended c o] → Stage id J ⟨none, [o]⟩ (.waits id)
  | told {c o} : closings id J = [.ended c o] → Stage id J ⟨none, []⟩ (.told (some id) (.ok o))
  | alone {since} : closings id J = [] → Stage id J ⟨some ⟨false, since⟩, []⟩ (.left id)
  | lost {n} : closings id J = [n] → Stage id J ⟨none, []⟩ (.left id)

variable {J N : List Note} {b b' : Broker} {id i : UInt64} {s : Standing} {k : List Call}
  {call : Call} {timeout now : Nat}

/-- Notes about other chains leave the stage as it is. -/
theorem Stage.silent (h : Stage id J s call) (hN : ∀ n ∈ N, n.concerns id = false) :
    Stage id (J ++ N) s call := by
  have hsame : closings id (J ++ N) = closings id J := by
    rw [closings_append, closings_of_silent hN, List.append_nil]
  cases h with
  | pending hc => exact .pending (hsame.trans hc)
  | owed hc => exact .owed (hsame.trans hc)
  | told hc => exact .told (hsame.trans hc)
  | alone hc => exact .alone (hsame.trans hc)
  | lost hc => exact .lost (hsame.trans hc)

/-- Nothing but its start is told of a chain outside the table. -/
theorem not_admits_of_gone {n : Note} (hs : s.hop = none) (hn : n.concerns id = true)
    (hstarts : n.starts = false) : ¬s.Admits timeout now n := by
  intro hadmits
  cases n with
  | started => cases hstarts
  | happened | copied | redeemed | injected => cases hn
  | directed c cause d =>
      cases cause with
      | timeout =>
          obtain ⟨h, hh, _⟩ := hadmits
          rw [hs] at hh
          cases hh
      | answer | disconnect => simp [Standing.Admits, hs] at hadmits
  | handed | ended => simp [Standing.Admits, hs] at hadmits
  | dropped =>
      obtain ⟨h, hh, _⟩ := hadmits
      rw [hs] at hh
      cases hh

/-- A note moves a chain along the arrows: while its caller waits it can only end. -/
theorem Stage.note {n : Note} (h : Stage id J s call) (hn : n.concerns id = true)
    (hstarts : n.starts = false) (hadmits : s.Admits timeout now n) :
    Stage id (J ++ [n]) (s.after now n) call := by
  have hclosings := closings_concat J hn
  cases h with
  | owed | told | lost => exact absurd hadmits (not_admits_of_gone rfl hn hstarts)
  | pending hc =>
      rw [hc] at hclosings
      cases n with
      | started => cases hstarts
      | happened | copied | redeemed | injected => cases hn
      | directed => exact .pending hclosings
      | handed c client sent =>
          cases sent with
          | false => exact .pending hclosings
          | true => exact .pending hclosings
      | ended => exact .owed hclosings
      | dropped =>
          obtain ⟨h, hh, hawaited⟩ := hadmits
          cases hh
          cases hawaited
  | alone hc =>
      rw [hc] at hclosings
      cases n with
      | started => cases hstarts
      | happened | copied | redeemed | injected => cases hn
      | directed => exact .alone hclosings
      | handed c client sent =>
          cases sent with
          | false => exact .alone hclosings
          | true => exact .alone hclosings
      | ended => exact .lost hclosings
      | dropped => exact .lost hclosings

/-- A chain that has not started. -/
structure Unborn (id : UInt64) (J : List Note) (s : Standing) : Prop where
  starts : ∀ c, .started c ∈ J → c.id ≠ id
  closings : closings id J = []
  standing : s = {}

/-- A chain that has started, together with its call, or one that has not. -/
def Tracked (id : UInt64) (J : List Note) (s : Standing) (k : List Call) : Prop :=
  (Unborn id J s ∧ k.filter (·.chain? = some id) = []) ∨
    ∃ c call, .started c ∈ J ∧ c.id = id ∧ k.filter (·.chain? = some id) = [call] ∧
      Stage id J s call

/-- What is told of one chain during a turn is admitted. -/
theorem Turn.admits (h : Turn b N b') (id : UInt64) : Lawful (fun p n => n.concerns id = true →
    ((b.standing id).through id b.now p).Admits b.settings.chainTimeout b.now n) N := by
  intro p n hp hn
  obtain ⟨c, hc, rfl⟩ := (concerns_iff n id).mp hn
  exact h.lawful p n hp c hc

/-- Notes that may be told of the chain lead from stage to stage. -/
theorem Stage.through (h : Stage id J s call)
    (hadmits : Lawful (fun p n => n.concerns id = true →
      (s.through id now p).Admits timeout now n) N)
    (hstarts : ∀ n ∈ N, n.concerns id = true → n.starts = false) :
    Stage id (J ++ N) (s.through id now N) call := by
  induction N using List.reverseRecOn with
  | nil =>
      rw [List.append_nil]
      exact h
  | append_singleton N n ih =>
      obtain ⟨hbefore, hlast⟩ := lawful_concat.mp hadmits
      have ih := ih hbefore fun m hm => hstarts m (List.mem_append_left _ hm)
      rw [← List.append_assoc, Standing.through_concat]
      cases hn : n.concerns id with
      | false =>
          exact ih.silent fun m hm => by rw [List.mem_singleton.mp hm]; exact hn
      | true =>
          exact ih.note hn (hstarts n (List.mem_append_right _ List.mem_cons_self) hn) (hlast hn)

/-- Nothing is told of a chain that has not started. -/
theorem not_concerns_of_unborn
    (hadmits : Lawful (fun p n => n.concerns id = true →
      ((({} : Standing).through id now p).Admits timeout now n)) N)
    (hstarts : ∀ n ∈ N, n.concerns id = true → n.starts = false) :
    ∀ n ∈ N, n.concerns id = false := by
  induction N using List.reverseRecOn with
  | nil => simp
  | append_singleton N n ih =>
      obtain ⟨hbefore, hlast⟩ := lawful_concat.mp hadmits
      have ih := ih hbefore fun m hm => hstarts m (List.mem_append_left _ hm)
      rw [Standing.through_of_silent ih] at hlast
      intro m hm
      cases List.mem_append.mp hm with
      | inl hold => exact ih m hold
      | inr hnew =>
          rw [List.mem_singleton.mp hnew]
          cases hn : n.concerns id with
          | false => rfl
          | true =>
              exact absurd (hlast hn) (not_admits_of_gone rfl hn
                (hstarts n (List.mem_append_right _ List.mem_cons_self) hn))

/-- What has not started has nothing told of it. -/
theorem Unborn.silent (h : Unborn id J s) (hN : ∀ n ∈ N, n.concerns id = false) :
    Unborn id (J ++ N) s := by
  refine ⟨fun c hc hid => ?_, ?_, h.standing⟩
  · cases List.mem_append.mp hc with
    | inl hold => exact h.starts c hold hid
    | inr hnew =>
        have hconcerns := hN _ hnew
        simp [Note.concerns, Note.chain?, hid] at hconcerns
  · rw [closings_append, h.closings, closings_of_silent hN]
    rfl

/-- Notes about other chains leave a chain and its call on the track. -/
theorem Tracked.silent (h : Tracked id J s k)
    (hN : ∀ n ∈ N, n.concerns id = false) : Tracked id (J ++ N) s k := by
  obtain ⟨hunborn, hcalls⟩ | ⟨c, call, hstarted, hid, hcalls, hstage⟩ := h
  · exact .inl ⟨hunborn.silent hN, hcalls⟩
  · exact .inr ⟨c, call, List.mem_append_left N hstarted, hid, hcalls, hstage.silent hN⟩

/-- A turn that starts no chain of this id. -/
theorem Tracked.turn (h : Tracked id J (b.standing id) k) (ht : Turn b N b')
    (hstarts : ∀ n ∈ N, n.concerns id = true → n.starts = false) :
    Tracked id (J ++ N) (b'.standing id) k := by
  have hadmits := ht.admits id
  rw [ht.standing]
  obtain ⟨hunborn, hcalls⟩ | ⟨c, call, hstarted, hid, hcalls, hstage⟩ := h
  · rw [hunborn.standing] at hadmits
    have hsilent := not_concerns_of_unborn hadmits hstarts
    rw [Standing.through_of_silent hsilent]
    exact .inl ⟨hunborn.silent hsilent, hcalls⟩
  · exact .inr ⟨c, call, List.mem_append_left N hstarted, hid, hcalls,
      hstage.through hadmits hstarts⟩

/-! ## packets that are handed in -/

/-- A call about something else makes no difference. -/
theorem Tracked.concat (h : Tracked id J s k) (hcall : call.chain? ≠ some id) :
    Tracked id J s (k ++ [call]) := by
  have hcalls : (k ++ [call]).filter (·.chain? = some id) = k.filter (·.chain? = some id) := by
    simp [List.filter_append, hcall]
  unfold Tracked
  rw [hcalls]
  exact h

/-- A chain whose id is given out here has not started before. -/
theorem Tracked.unborn {c : Chain} (h : Tracked c.id J s k) (hstarted : .started c ∈ N)
    (honce : (opened (J ++ N)).count c.id ≤ 1) :
    Unborn c.id J s ∧ k.filter (·.chain? = some c.id) = [] := by
  obtain hunborn | ⟨c', _, hbefore, hid, _⟩ := h
  · exact hunborn
  · have hhere := mem_opened hstarted rfl
    exact absurd hhere (not_mem_opened_of_count honce (mem_opened hbefore (congrArg some hid)))

/-- From its start on a chain waits, or has ended, for its call. -/
theorem Unborn.started {c : Chain} {M : List Note} (h : Unborn c.id J s)
    (hN : ∀ n ∈ N, n.concerns c.id = false) (hM : ∀ n ∈ M, n.starts = false)
    (hadmits : Lawful (fun p n => n.concerns c.id = true →
      (s.through c.id now p).Admits timeout now n) (N ++ .started c :: M)) :
    Stage c.id (J ++ (N ++ .started c :: M)) (s.through c.id now (N ++ .started c :: M))
      (.waits c.id) := by
  have hconcerns : (Note.started c).concerns c.id = true := (concerns_iff _ _).mpr ⟨c, rfl, rfl⟩
  rw [List.append_cons] at hadmits ⊢
  have hstarted : Stage c.id (J ++ (N ++ [.started c]))
      (s.through c.id now (N ++ [.started c])) (.waits c.id) := by
    rw [Standing.through_concat, Standing.through_of_silent hN, h.standing, if_pos hconcerns]
    refine .pending ?_
    rw [← List.append_assoc, closings_concat _ hconcerns]
    exact (h.silent hN).closings
  have hlater : Lawful (fun p n => n.concerns c.id = true →
      ((s.through c.id now (N ++ [.started c])).through c.id now p).Admits timeout now n) M := by
    intro p n hp hn
    rw [← Standing.through_append]
    exact (lawful_append.mp hadmits).2 p n hp hn
  have hrest := hstarted.through hlater fun n hn _ => hM n hn
  rwa [Standing.through_append, ← List.append_assoc J]

/-- The start of a chain is no start of another one. -/
theorem starts_of_ne {c : Chain} {M : List Note} (hid : c.id ≠ id)
    (hN : ∀ n ∈ N, n.chain? = none) (hM : ∀ n ∈ M, n.starts = false) :
    ∀ n ∈ N ++ .started c :: M, n.concerns id = true → n.starts = false := by
  intro n hn hconcerns
  cases List.mem_append.mp hn with
  | inl hbefore => simp [Note.concerns, hN n hbefore] at hconcerns
  | inr hrest =>
      cases List.mem_cons.mp hrest with
      | inl he =>
          rw [he, concerns_eq_false_of_ne rfl hid] at hconcerns
          cases hconcerns
      | inr hlater => exact hM n hlater

/-- The chain that a packet starts belongs to the call that handed it in. -/
theorem Tracked.submitted (bytes : Bytes) (direction : Direction) (flags : UInt32)
    (h : Tracked id J (b.standing id) k)
    (honce : (opened (J ++ b.notes (.submit bytes direction flags))).count id ≤ 1) :
    Tracked id (J ++ b.notes (.submit bytes direction flags))
      ((b.submit bytes direction flags).2.standing id)
      (k ++ [Call.submitted (b.submit bytes direction flags).1]) := by
  have ht : Turn b (b.notes (.submit bytes direction flags)) (b.submit bytes direction flags).2 :=
    turn_submit b bytes direction flags
  obtain ⟨c, N, M, hanswer, hnotes, hN, hM⟩ | ⟨hanswer, hsilent⟩ :=
    submit_started b bytes direction flags
  · rw [hanswer]
    by_cases hid : c.id = id
    · subst hid
      have hadmits := ht.admits c.id
      have hstanding := ht.standing c.id
      rw [hnotes] at honce hadmits hstanding ⊢
      have hstarted : .started c ∈ N ++ .started c :: M :=
        List.mem_append_right N List.mem_cons_self
      obtain ⟨hunborn, hcalls⟩ := h.unborn hstarted honce
      have hstage := hunborn.started (fun n hn => by simp [Note.concerns, hN n hn]) hM hadmits
      rw [← hstanding] at hstage
      refine .inr ⟨c, .waits c.id, List.mem_append_right J hstarted, rfl, ?_, hstage⟩
      rw [List.filter_append, hcalls]
      simp [Call.submitted, Call.chain?]
    · refine (h.turn ht ?_).concat (by simpa [Call.submitted, Call.chain?] using hid)
      rw [hnotes]
      exact starts_of_ne hid hN hM
  · refine (h.turn ht fun n hn hconcerns => ?_).concat ?_
    · simp [Note.concerns, hsilent n hn] at hconcerns
    · obtain hanswer | ⟨e, hanswer⟩ := hanswer
      · simp [hanswer, Call.submitted, Call.chain?]
      · simp [hanswer, Call.submitted, Call.chain?]

/-! ## callers that look, and callers that go -/

/-- A caller that looks finds that its chain goes on, or the outcome. -/
theorem Stage.poll_eq (h : Stage id J ((b.expire id).standing id) (.waits id)) :
    (closings id J = [] ∧ b.poll id = (none, b.expire id)) ∨
      ∃ c o, closings id J = [.ended c o] ∧ (b.expire id).standing id = ⟨none, [o]⟩ ∧
        b.poll id = (some (.ok o), (b.expire id).dropOutcome id) := by
  generalize hs : (b.expire id).standing id = s at h
  have hlookup : (b.expire id).outcomes.lookup id = s.kept.head? :=
    (lookup_outcomes _ id).trans (congrArg (·.kept.head?) hs)
  have hhop : ((b.expire id).chain? id).map _ = s.hop := congrArg Standing.hop hs
  cases b.looked id with
  | found hkept hresult =>
      rw [hlookup] at hkept
      cases h with
      | pending => cases hkept
      | owed hc =>
          cases hkept
          exact .inr ⟨_, _, hc, rfl, hresult⟩
  | waits hkept _ hresult =>
      rw [hlookup] at hkept
      cases h with
      | pending hc => exact .inl ⟨hc, hresult⟩
      | owed => cases hkept
  | lost hkept hgone =>
      rw [hlookup] at hkept
      rw [hgone] at hhop
      cases h with
      | pending => cases hhop
      | owed => cases hkept

/-- The one call for a chain is where it is found, and another one may take its place. -/
theorem filter_calls {before after : List Call} {x : Call} (hx : x.chain? = some id)
    (h : (before ++ x :: after).filter (·.chain? = some id) = [call]) :
    call = x ∧ ∀ y : Call, y.chain? = some id →
      (before ++ y :: after).filter (·.chain? = some id) = [y] := by
  rw [List.filter_append, List.filter_cons_of_pos (by simpa using hx)] at h
  obtain ⟨hbefore, hrest⟩ | ⟨_, hnone⟩ := List.append_eq_singleton_iff.mp h
  · obtain ⟨rfl, hafter⟩ := List.cons.inj hrest
    refine ⟨rfl, fun y hy => ?_⟩
    rw [List.filter_append, List.filter_cons_of_pos (by simpa using hy), hbefore, hafter]
    rfl
  · cases hnone

/-- What a call does to its chain leaves the chains of other calls alone. -/
theorem Tracked.replace {before after : List Call} {x y : Call} {s' : Standing}
    (h : Tracked i J s (before ++ x :: after)) (hx : x.chain? = some id) (hy : y.chain? = some id)
    (hself : i = id → Stage i J s x → Stage i J s' y) (hne : i ≠ id → s' = s) :
    Tracked i J s' (before ++ y :: after) := by
  by_cases hid : i = id
  · subst hid
    obtain ⟨_, hcalls⟩ | ⟨c, call, hstarted, hc, hcalls, hstage⟩ := h
    · rw [List.filter_eq_nil_iff] at hcalls
      exact absurd (by simpa using hx) (hcalls x (List.mem_append_right _ List.mem_cons_self))
    · obtain ⟨rfl, hreplaced⟩ := filter_calls hx hcalls
      exact .inr ⟨c, y, hstarted, hc, hreplaced y hy, hself rfl hstage⟩
  · rw [hne hid]
    have hcalls : (before ++ y :: after).filter (·.chain? = some i) =
        (before ++ x :: after).filter (·.chain? = some i) := by
      simp [List.filter_append, hx, hy, Ne.symm hid]
    unfold Tracked
    rw [hcalls]
    exact h

/-- A caller that looks takes the outcome that is kept for it, and nobody else's. -/
theorem Tracked.looked {before after : List Call}
    (h : Tracked i J (b.standing i) (before ++ .waits id :: after)) :
    Tracked i (J ++ b.expireNotes id) ((b.poll id).2.standing i)
      (before ++ Call.looked id (b.poll id).1 :: after) := by
  have hjudged := Tracked.turn h (turn_expire b id) fun n hn _ => expireNotes_starts b id n hn
  have hother : i ≠ id → (b.poll id).2.standing i = (b.expire id).standing i := by
    intro hne
    obtain hpoll | hpoll := snd_poll b id
    · rw [hpoll]
    · rw [hpoll, standing_dropOutcome_of_ne hne]
  refine Tracked.replace hjudged rfl (Call.chain?_looked id _) ?_ hother
  rintro rfl hstage
  obtain ⟨hc, hpoll⟩ | ⟨c, o, hc, hstanding, hpoll⟩ := Stage.poll_eq hstage
  · rw [hpoll]
    exact hstage
  · rw [hpoll, standing_dropOutcome_self, hstanding]
    exact .told hc

/-- A caller that goes away leaves its chain alone or its outcome lost. -/
theorem Tracked.left {before after : List Call}
    (h : Tracked i J (b.standing i) (before ++ .waits id :: after)) :
    Tracked i J ((b.abandon id).standing i) (before ++ .left id :: after) := by
  refine Tracked.replace h rfl rfl ?_ standing_abandon_of_ne
  rintro rfl hstage
  rw [standing_abandon_self]
  generalize b.standing i = s at hstage
  cases hstage with
  | pending hc => exact .alone hc
  | owed hc => exact .lost hc

/-! ## runs with calls -/

variable {settings : BrokerSettings}

/-- **Every call goes with its chain**, over every run. -/
theorem Attended.tracked (h : Attended settings J b k) (id : UInt64)
    (honce : (opened J).count id ≤ 1) : Tracked id J (b.standing id) k := by
  have hhappened : ∀ {J : List Note} {s : Standing} {k : List Call} (e : Event),
      Tracked id J s k → Tracked id (J ++ [.happened e]) s k := by
    intro J s k e h
    refine Tracked.silent h fun n hn => ?_
    rw [List.mem_singleton.mp hn]
    rfl
  have hfewer : ∀ {J : List Note} (N : List Note), (opened (J ++ N)).count id ≤ 1 →
      (opened J).count id ≤ 1 := by
    intro J N h
    rw [opened_append, List.count_append] at h
    omega
  induction h with
  | new => exact .inl ⟨⟨by simp, rfl, rfl⟩, rfl⟩
  | @step J b k e he h ih =>
      have hbefore := hhappened e (ih (hfewer _ honce))
      rw [List.append_cons]
      cases e with
      | submit | poll | abandon => exact absurd trivial he
      | later ms =>
          rw [notes, List.append_nil]
          exact hbefore
      | _ =>
          exact Tracked.turn hbefore (turn_step h.run.distinct trivial)
            fun n hn _ => notes_starts he n hn
  | @reordered J b k chains h hp ih =>
      rw [standing_eq (chain?_of_perm h.run.distinct hp) rfl]
      exact ih honce
  | submitted bytes direction flags h ih =>
      have hbefore := hhappened (.submit bytes direction flags) (ih (hfewer _ honce))
      rw [List.append_cons] at honce ⊢
      exact Tracked.submitted bytes direction flags hbefore honce
  | looked id before after h hk ih =>
      have hbefore := hhappened (.poll id) (ih (hfewer _ honce))
      rw [List.append_cons]
      rw [hk] at hbefore
      exact Tracked.looked hbefore
  | left id before after h hk ih =>
      have hbefore := hhappened (.abandon id) (ih (hfewer _ honce))
      rw [notes, List.append_cons, List.append_nil]
      rw [hk] at hbefore
      exact Tracked.left hbefore

/-! ## what every caller can rely on -/

/-- A chain and its call. -/
structure Completed (J : List Note) (b : Broker) (k : List Call) (id : UInt64) : Prop where
  /-- A chain that has started is that of one call. -/
  one_call : ∀ c, .started c ∈ J → c.id = id → ∃ call, k.filter (·.chain? = some id) = [call]
  /-- It leaves the table at most once, and is there until then. -/
  closed_once : (closings id J).length ≤ 1
  in_table : (b.chain? id).isSome ↔ (∃ c, .started c ∈ J ∧ c.id = id) ∧ closings id J = []
  /-- While its call waits, whatever ends it can tell so. -/
  awaited : ∀ a, b.chain? id = some a → (a.awaited = true ↔ .waits id ∈ k)
  /-- A call that waits has one outcome to come or one to take, and never loses it. -/
  waits : .waits id ∈ k → closings id J = [] ∧ b.kept id = [] ∨
    ∃ c o, closings id J = [.ended c o] ∧ b.kept id = [o]
  looks : .waits id ∈ k →
    closings id (J ++ b.notes (.poll id)) = [] ∧
        ((Caller.waiting id).run b).1 = .unfinished (.waiting id) ∨
      ∃ c o, closings id (J ++ b.notes (.poll id)) = [.ended c o] ∧
        ((Caller.waiting id).run b).1 = .done (.ok o)
  /-- A call that has returned was told how its chain ended, and there is nothing left to tell. -/
  told : ∀ result, .told (some id) result ∈ k →
    ∃ c o, closings id J = [.ended c o] ∧ result = .ok o ∧ b.kept id = []
  /-- Nothing is kept for a caller that has gone away. -/
  left : .left id ∈ k → b.kept id = []

theorem eq_of_filter_calls (hcalls : k.filter (·.chain? = some id) = [call]) {x : Call}
    (hx : x ∈ k) (hid : x.chain? = some id) : x = call := by
  have hmem : x ∈ k.filter (·.chain? = some id) := List.mem_filter.mpr ⟨hx, by simpa using hid⟩
  rw [hcalls] at hmem
  exact List.mem_singleton.mp hmem

/-- A chain that has not started has no closing and no caller. -/
theorem Completed.of_unborn (h : Unborn id J (b.standing id))
    (hcalls : k.filter (·.chain? = some id) = []) : Completed J b k id := by
  have hnone : ∀ x ∈ k, x.chain? ≠ some id := fun x hx hid => by
    simpa [hid] using List.filter_eq_nil_iff.mp hcalls x hx
  have hchain : b.chain? id = none := by
    have hhop := congrArg Standing.hop h.standing
    exact Option.map_eq_none_iff.mp hhop
  constructor
  · exact fun c hc hid => absurd hid (h.starts c hc)
  · simp [h.closings]
  · rw [hchain]
    constructor
    · intro hin
      cases hin
    · rintro ⟨⟨c, hc, hid⟩, _⟩
      exact absurd hid (h.starts c hc)
  · intro a ha
    rw [hchain] at ha
    cases ha
  · exact fun hx => absurd rfl (hnone _ hx)
  · exact fun hx => absurd rfl (hnone _ hx)
  · exact fun result hx => absurd rfl (hnone _ hx)
  · exact fun hx => absurd rfl (hnone _ hx)

/-- What a caller that waits is told when it runs. -/
theorem Stage.run_waiting (h : Stage id J (b.standing id) (.waits id)) :
    closings id (J ++ b.notes (.poll id)) = [] ∧
        ((Caller.waiting id).run b).1 = .unfinished (.waiting id) ∨
      ∃ c o, closings id (J ++ b.notes (.poll id)) = [.ended c o] ∧
        ((Caller.waiting id).run b).1 = .done (.ok o) := by
  have ht := turn_expire b id
  have hjudged := h.through (ht.admits id) fun n hn _ => expireNotes_starts b id n hn
  rw [← ht.standing] at hjudged
  have hrun : (Caller.waiting id).run b = Caller.await b id := rfl
  rw [hrun, Caller.await]
  obtain ⟨hc, hpoll⟩ | ⟨c, o, hc, _, hpoll⟩ := Stage.poll_eq hjudged
  · rw [hpoll]
    exact .inl ⟨hc, rfl⟩
  · rw [hpoll]
    exact .inr ⟨c, o, hc, rfl⟩

/-- At every stage the books of a chain and its call are complete. -/
theorem Completed.of_stage {c : Chain} (hstarted : .started c ∈ J) (hid : c.id = id)
    (hcalls : k.filter (·.chain? = some id) = [call]) (h : Stage id J (b.standing id) call) :
    Completed J b k id := by
  have hcall : call ∈ k := (List.mem_filter.mp (by rw [hcalls]; exact List.mem_cons_self)).1
  have hruns : call = .waits id → _ := fun he => Stage.run_waiting (he ▸ h)
  generalize hs : b.standing id = s at h
  have hhop : (b.chain? id).map _ = s.hop := congrArg Standing.hop hs
  have hkept : b.kept id = s.kept := congrArg Standing.kept hs
  have hin : (b.chain? id).isSome = s.hop.isSome := by rw [← hhop, Option.isSome_map]
  have hawaited : ∀ a, b.chain? id = some a → s.hop.map Hop.awaited = some a.awaited := by
    intro a ha
    rw [← hhop, ha]
    rfl
  have hsame : ∀ x ∈ k, x.chain? = some id → x = call :=
    fun x hx => eq_of_filter_calls hcalls hx
  constructor
  · exact fun _ _ _ => ⟨call, hcalls⟩
  · cases h with
    | pending hc | owed hc | told hc | alone hc | lost hc => simp [hc]
  · rw [hin]
    cases h with
    | pending hc | alone hc => simpa [hc] using ⟨c, hstarted, hid⟩
    | owed hc | told hc | lost hc => simp [hc]
  · intro a ha
    have ha := hawaited a ha
    cases h with
    | pending => exact ⟨fun _ => hcall, fun _ => (Option.some.inj ha).symm⟩
    | alone =>
        constructor
        · intro hyes
          rw [hyes] at ha
          cases ha
        · intro hx
          cases hsame _ hx rfl
    | owed | told | lost => cases ha
  · intro hx
    have he := hsame _ hx rfl
    cases h with
    | pending hc => exact .inl ⟨hc, hkept⟩
    | owed hc => exact .inr ⟨_, _, hc, hkept⟩
    | told | alone | lost => cases he
  · exact fun hx => hruns (hsame _ hx rfl).symm
  · intro result hx
    have he := hsame _ hx rfl
    cases h with
    | told hc => cases he; exact ⟨_, _, hc, rfl, hkept⟩
    | pending | owed | alone | lost => cases he
  · intro hx
    have he := hsame _ hx rfl
    cases h with
    | alone hc => exact hkept
    | lost hc => exact hkept
    | pending | owed | told => cases he

/-- **Every call is answered, and once.**  However the turns of callers, answers, timers,
disconnects and housekeeping follow each other, a chain leaves the table at most once; while its
caller waits, it does so only by ending, and its one outcome is kept until the caller looks; the
caller is told that outcome and never that the chain is lost.  This is so for every id that is given
out once; ids are, until 64 bits are too few. -/
theorem Attended.completed (h : Attended settings J b k) :
    (∀ id, (opened J).count id ≤ 1 → Completed J b k id) ∧
    (∀ result, .told none result ∈ k →
      result = .ok .passthrough ∨ ∃ e, result = .error (.codec e)) ∧
    (b.nextId ≤ UInt64.size → ∀ id, (opened J).count id ≤ 1) := by
  refine ⟨fun id honce => ?_, h.told_at_once, fun hb id =>
    List.nodup_iff_count_le_one.mp (h.run.nodup_opened hb) id⟩
  obtain ⟨hunborn, hcalls⟩ | ⟨c, call, hstarted, hid, hcalls, hstage⟩ := h.tracked id honce
  · exact .of_unborn hunborn hcalls
  · exact .of_stage hstarted hid hcalls hstage

/-- Three packets wait for the same extension.  The second caller goes away, then all hops are found
overdue: the second chain is dropped, and the other two go as they came.  The first caller has
looked since, and a fourth packet has been handed in. -/
theorem completed_past_a_sweep :
    ∃ J b k, Attended {} J b k ∧ b.chains.map (·.chain.id) = [4] ∧
    k = [.told (some 1) (.ok (.forward ⟨1, [2, 0, 0, 0, 0], .clientToServer, 0, 1⟩)), .left 2,
      .waits 3, .waits 4] ∧
    ∀ id, (opened J).count id ≤ 1 ∧ Completed J b k id := by
  let text : Interest := { id := 1, kind := .net .genericText }
  let packet : Bytes := [2, 0, 0, 0, 0]
  have h₀ : Attended {} _ _ [] := Attended.new.step (.register "first" [text] 4) id
  have h₁ := h₀.submitted packet .clientToServer 0
  have h₂ := h₁.submitted packet .clientToServer 0
  have h₃ := h₂.submitted packet .clientToServer 0
  have h₄ := h₃.left 2 [.waits 1] [.waits 3] (by cbv)
  have h₅ := (h₄.step (.later 5000) id).step .sweep id
  have h₆ := h₅.looked 1 [] [.left 2, .waits 3] rfl
  have h₇ := h₆.submitted packet .clientToServer 0
  obtain ⟨hcompleted, _, hids⟩ := h₇.completed
  have honce := hids (by cbv)
  exact ⟨_, _, _, h₇, by cbv, by cbv, fun id => ⟨honce id, hcompleted id (honce id)⟩⟩

end Broker

end Intercept
