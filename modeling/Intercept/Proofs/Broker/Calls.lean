import Intercept.Broker.Caller
import Intercept.Proofs.Broker.Sequel
import Intercept.Proofs.Broker.Thread

/-!
# Intercept.Proofs.Broker.Calls

Those who hand packets in, and the runs in which they do.

```
Attended settings J b k    a run of the broker and of those who call it; k is what has become
                           of each call
```

A call hands its packet in, looks for the outcome any number of times, and
returns or goes away; everything else happens in between as it likes.  A caller
that runs undisturbed does several of these in a row (`Attended.run_ready`,
`Attended.run_waiting`).
-/

namespace Intercept

/-! ## calls -/

/-- What has become of the call that handed a packet in. -/
inductive Call where
  /-- It waits for the outcome of a chain. -/
  | waits (chain : UInt64)
  /-- Its caller has gone away. -/
  | left (chain : UInt64)
  /-- It has returned; the chain that it waited for, if any. -/
  | told (chain : Option UInt64) (result : Except Fault Outcome)

namespace Call

/-- The chain that the call has started. -/
def chain? : Call → Option UInt64
  | waits id | left id => some id
  | told chain _ => chain

/-- A call that has handed in its packet. -/
def submitted : Except Fault Broker.Submitted → Call
  | .ok (.chain id) => waits id
  | .ok .passthrough => told none (.ok .passthrough)
  | .error e => told none (.error e)

/-- A call that waited for a chain and has looked for its outcome. -/
def looked (id : UInt64) : Option (Except Fault Outcome) → Call
  | none => waits id
  | some result => told (some id) result

@[simp] theorem chain?_looked (id : UInt64) (result : Option (Except Fault Outcome)) :
    (looked id result).chain? = some id := by
  cases result with
  | none => rfl
  | some result => rfl

end Call

/-- What a run of a caller comes to, told by its call. -/
def Caller.Progress.Tells : Caller.Progress → Call → Prop
  | .done result, call => ∃ chain, call = .told chain result
  | .unfinished (.waiting id), call => call = .waits id
  | .unfinished (.ready ..), _ => False

/-- What callers do: hand in a packet, look for the outcome, go away. -/
def Event.IsCallers : Event → Prop
  | submit .. | poll _ | abandon _ => True
  | _ => False

namespace Broker

/-- The runs of a broker together with its calls.  What callers do is done by a call that is there
to do it; everything else happens as it likes. -/
inductive Attended (settings : BrokerSettings) : List Note → Broker → List Call → Prop where
  | new : Attended settings [] (.new settings) []
  | step {J b k} (e : Event) : ¬e.IsCallers → Attended settings J b k →
      Attended settings (J ++ .happened e :: b.notes e) (b.step e) k
  | reordered {J b k} {chains : List ActiveChain} : Attended settings J b k →
      chains.Perm b.chains → Attended settings J { b with chains } k
  | submitted {J b k} (bytes : Bytes) (direction : Direction) (flags : UInt32) :
      Attended settings J b k →
      Attended settings
        (J ++ .happened (.submit bytes direction flags) :: b.notes (.submit bytes direction flags))
        (b.step (.submit bytes direction flags))
        (k ++ [Call.submitted (b.submit bytes direction flags).1])
  | looked {J b k} (id : UInt64) (before after : List Call) : Attended settings J b k →
      k = before ++ .waits id :: after →
      Attended settings (J ++ .happened (.poll id) :: b.notes (.poll id)) (b.step (.poll id))
        (before ++ Call.looked id (b.poll id).1 :: after)
  | left {J b k} (id : UInt64) (before after : List Call) : Attended settings J b k →
      k = before ++ .waits id :: after →
      Attended settings (J ++ .happened (.abandon id) :: b.notes (.abandon id))
        (b.step (.abandon id))
        (before ++ .left id :: after)

variable {settings : BrokerSettings} {J : List Note} {b : Broker} {k : List Call} {id : UInt64}

theorem Attended.run (h : Attended settings J b k) : Run settings J b := by
  induction h with
  | new => exact .new
  | step e _ _ ih => exact ih.step e
  | reordered _ hp ih => exact ih.reordered hp
  | submitted bytes direction flags _ ih => exact ih.step (.submit bytes direction flags)
  | looked id _ _ _ _ ih => exact ih.step (.poll id)
  | left id _ _ _ _ ih => exact ih.step (.abandon id)

/-! ## packets that are handed in -/

/-- Carrying a chain on is no submission, and so starts no chain. -/
theorem driveNotes_starts (b : Broker) (a : ActiveChain) (step : Step) :
    ∀ n ∈ b.driveNotes a step, n.starts = false := by
  intro n hn
  have horderly := (orderly_driveNotes (e := .prune) (under_self b) a step).1
  cases n with
  | started c => cases horderly.starts c hn
  | _ => rfl

/-- What a caller is told at once, and whether its packet has started a chain. -/
theorem submit_started (b : Broker) (bytes : Bytes) (direction : Direction) (flags : UInt32) :
    (∃ c N M, (b.submit bytes direction flags).1 = .ok (.chain c.id) ∧
      b.notes (.submit bytes direction flags) = N ++ .started c :: M ∧
      (∀ n ∈ N, n.chain? = none) ∧ ∀ n ∈ M, n.starts = false) ∨
    (((b.submit bytes direction flags).1 = .ok .passthrough ∨
        ∃ e, (b.submit bytes direction flags).1 = .error (.codec e)) ∧
      ∀ n ∈ b.notes (.submit bytes direction flags), n.chain? = none) := by
  cases b.received bytes direction flags with
  | @refused e _ hresult hnotes =>
      rw [notes, hresult, hnotes]
      exact .inr ⟨.inr ⟨e, rfl⟩, by simp⟩
  | passes _ _ hresult hnotes =>
      rw [notes, hresult, hnotes]
      exact .inr ⟨.inl rfl, chain?_copyNotes _ _ _ _ _⟩
  | starts _ _ hresult hnotes =>
      rw [notes, hresult, hnotes]
      exact .inl ⟨_, _, _, rfl, rfl, chain?_copyNotes _ _ _ _ _, driveNotes_starts _ _ _⟩

/-- Only who hands in a packet starts a chain. -/
theorem notes_starts {e : Event} (he : ¬e.IsCallers) : ∀ n ∈ b.notes e, n.starts = false := by
  intro n hn
  cases n with
  | started c =>
      have hsubmit := (orderly_notes b e).starts c hn
      subst hsubmit
      exact absurd trivial he
  | _ => rfl

theorem expireNotes_starts (b : Broker) (id : UInt64) :
    ∀ n ∈ b.expireNotes id, n.starts = false :=
  notes_starts (e := .expire id) (by intro h; cases h)

/-- A call that starts no chain returns at once. -/
theorem Attended.told_at_once (h : Attended settings J b k) :
    ∀ result, .told none result ∈ k →
      result = .ok .passthrough ∨ ∃ e, result = .error (.codec e) := by
  induction h with
  | new => simp
  | step _ _ _ ih => exact ih
  | reordered _ _ ih => exact ih
  | @submitted J b k bytes direction flags _ ih =>
      intro result hmem
      cases List.mem_append.mp hmem with
      | inl hold => exact ih result hold
      | inr hnew =>
          have he := List.mem_singleton.mp hnew
          obtain ⟨c, _, _, hanswer, _⟩ | ⟨hanswer | ⟨e, hanswer⟩, _⟩ :=
            submit_started b bytes direction flags
          · rw [hanswer] at he
            cases he
          · rw [hanswer] at he
            cases he
            exact .inl rfl
          · rw [hanswer] at he
            cases he
            exact .inr ⟨e, rfl⟩
  | looked id before after _ hk ih =>
      intro result hmem
      refine ih result ?_
      rw [hk]
      simp only [List.mem_append, List.mem_cons] at hmem ⊢
      obtain hbefore | he | hafter := hmem
      · exact .inl hbefore
      · have hchain := congrArg Call.chain? he
        rw [Call.chain?_looked] at hchain
        cases hchain
      · exact .inr (.inr hafter)
  | left id before after _ hk ih =>
      intro result hmem
      refine ih result ?_
      rw [hk]
      simp only [List.mem_append, List.mem_cons] at hmem ⊢
      obtain hbefore | he | hafter := hmem
      · exact .inl hbefore
      · cases he
      · exact .inr (.inr hafter)

/-! ## callers that run undisturbed -/

theorem await_eq (b : Broker) (id : UInt64) : (Caller.await b id).2 = (b.poll id).2 ∧
    (Caller.await b id).1.Tells (Call.looked id (b.poll id).1) := by
  unfold Caller.await
  obtain ⟨result, b'⟩ := b.poll id
  cases result with
  | some result => exact ⟨rfl, some id, rfl⟩
  | none => exact ⟨rfl, rfl⟩

/-- A caller that waits, when it runs, looks. -/
theorem Attended.run_waiting (h : Attended settings J b k) {before after : List Call}
    (hk : k = before ++ .waits id :: after) :
    ∃ N call, Attended settings (J ++ N) ((Caller.waiting id).run b).2
        (before ++ call :: after) ∧ ((Caller.waiting id).run b).1.Tells call := by
  obtain ⟨hbroker, htells⟩ := await_eq b id
  have hrun : (Caller.waiting id).run b = Caller.await b id := rfl
  rw [hrun, hbroker]
  exact ⟨_, _, h.looked id before after hk, htells⟩

/-- A new caller, when it runs, hands in its packet, and looks at once if that starts a chain. -/
theorem Attended.run_ready (h : Attended settings J b k) (bytes : Bytes) (direction : Direction)
    (flags : UInt32) :
    ∃ N call, Attended settings (J ++ N) ((Caller.ready bytes direction flags).run b).2
        (k ++ [call]) ∧ ((Caller.ready bytes direction flags).run b).1.Tells call := by
  have hsubmitted := h.submitted bytes direction flags
  cases hs : b.submit bytes direction flags with
  | mk answer b' =>
      have hbroker : b.step (.submit bytes direction flags) = b' := congrArg Prod.snd hs
      rw [hbroker, hs] at hsubmitted
      rw [Caller.run, hs]
      cases answer with
      | error e => exact ⟨_, _, hsubmitted, none, rfl⟩
      | ok answer =>
          cases answer with
          | passthrough => exact ⟨_, _, hsubmitted, none, rfl⟩
          | chain id =>
              obtain ⟨N, call, hlooked, htells⟩ := hsubmitted.run_waiting rfl
              rw [List.append_assoc] at hlooked
              exact ⟨_, call, hlooked, htells⟩

end Broker

end Intercept
