import Intercept.Proofs.Broker.Account
import Intercept.Proofs.Broker.Sequel
import Intercept.Proofs.Broker.Thread

/-!
# Intercept.Proofs.Broker.Content

A chain carries what its thread says.

```
directives T                      what has been applied to the chain, in order
replacements mode ds              the packets among it that decode, each with its direction
Content mode c₀ ds bytes dir fl   bytes and direction are the last that ds put in place of c₀'s,
                                  and the flags are those of c₀
```

One step at a time: a directive adds itself to the thread and its packet, if
that decodes, to the content (`Carries.taking`); being handed over, ended or
dropped adds nothing (`Follows.carries`).  The rest is an induction on the
thread (`Legal.carries`).
-/

namespace Intercept

/-! ## the content behind some directives -/

/-- The packet that a directive puts in the place of the one before, if it decodes. -/
def Directive.replacement? (mode : DecodeMode) (d : Directive) : Option (Bytes × Direction) :=
  d.packet?.filter fun p => (Packet.decode mode p.1).isOk

/-- The packets that some directives put in, the last one at the end. -/
def replacements (mode : DecodeMode) (ds : List Directive) : List (Bytes × Direction) :=
  ds.filterMap (·.replacement? mode)

/-- The content of a chain that started as `c₀`, after some directives. A direction that is left
unspecified changes nothing. -/
structure Content (mode : DecodeMode) (c₀ : Chain) (ds : List Directive) (bytes : Bytes)
    (direction : Direction) (flags : UInt32) : Prop where
  bytes_eq : bytes = ((replacements mode ds).map (·.1)).getLastD c₀.bytes
  direction_eq : direction =
    (((replacements mode ds).map (·.2)).filter (· ≠ .unspecified)).getLastD c₀.direction
  flags_eq : flags = c₀.flags

theorem replacements_concat (mode : DecodeMode) (ds : List Directive) (d : Directive) :
    replacements mode (ds ++ [d]) = replacements mode ds ++ (d.replacement? mode).toList := by
  unfold replacements
  rw [List.filterMap_append]
  cases h : d.replacement? mode with
  | none => simp [h]
  | some p => simp [h]

namespace Chain

/-- The chain is `c₀` with the packet that some directives have put in, and knows what it spells. -/
structure Carries (mode : DecodeMode) (c₀ : Chain) (ds : List Directive) (c : Chain) : Prop where
  content : Content mode c₀ ds c.bytes c.direction c.flags
  decoded : Packet.decode mode c.bytes = .ok c.packet

variable {mode : DecodeMode} {c₀ c : Chain} {ds : List Directive} {d : Directive}

theorem carries_start (h : Packet.decode mode c₀.bytes = .ok c₀.packet) :
    Carries mode c₀ [] c₀ := ⟨⟨rfl, rfl, rfl⟩, h⟩

/-- Who has the chain makes no difference. -/
theorem Carries.visit (h : Carries mode c₀ ds c) (client : Client) :
    Carries mode c₀ ds (c.visit client) := ⟨h.content, h.decoded⟩

theorem Carries.leave (h : Carries mode c₀ ds c) : Carries mode c₀ ds c.leave :=
  ⟨h.content, h.decoded⟩

theorem Carries.kept (h : Carries mode c₀ ds c) (hd : d.replacement? mode = none) :
    Carries mode c₀ (ds ++ [d]) c := by
  have hsame : replacements mode (ds ++ [d]) = replacements mode ds := by
    rw [replacements_concat, hd, Option.toList_none, List.append_nil]
  refine ⟨⟨?_, ?_, h.content.flags_eq⟩, h.decoded⟩
  · rw [hsame]; exact h.content.bytes_eq
  · rw [hsame]; exact h.content.direction_eq

theorem Carries.replaced {bytes : Bytes} {packet : Packet} {direction : Direction}
    (h : Carries mode c₀ ds c) (hp : Packet.decode mode bytes = .ok packet)
    (hd : d.replacement? mode = some (bytes, direction)) :
    Carries mode c₀ (ds ++ [d])
      { c with bytes, packet, direction := direction.orElse c.direction } := by
  have hmore : replacements mode (ds ++ [d]) = replacements mode ds ++ [(bytes, direction)] := by
    rw [replacements_concat, hd, Option.toList_some]
  refine ⟨⟨?_, ?_, h.content.flags_eq⟩, hp⟩
  · rw [hmore, List.map_append, List.map_cons, List.map_nil, List.getLastD_concat]
  · rw [hmore, List.map_append, List.map_cons, List.map_nil, List.filter_append]
    by_cases hdir : direction = .unspecified
    · simpa [hdir, Direction.orElse] using h.content.direction_eq
    · simp [hdir, Direction.orElse]

/-- **A directive puts in what it brings if that decodes, and nothing else.** -/
theorem Carries.taking (h : Carries mode c₀ ds c) (d : Directive) :
    Carries mode c₀ (ds ++ [d]) (c.taking mode d) := by
  have hhit : Carries mode c₀ ds c.hit := ⟨h.content, h.decoded⟩
  have hreplace : ∀ bytes direction, d.packet? = some (bytes, direction) →
      Carries mode c₀ (ds ++ [d]) (c.hit.replace mode bytes direction) := by
    intro bytes direction hd
    unfold replace
    cases hp : Packet.decode mode bytes with
    | ok packet =>
        refine hhit.replaced hp ?_
        simp [Directive.replacement?, hd, hp, Except.isOk, Except.toBool]
    | error fault =>
        refine hhit.kept ?_
        simp [Directive.replacement?, hd, hp, Except.isOk, Except.toBool]
  cases d with
  | forward packet direction => exact hreplace packet direction rfl
  | finish packet direction => exact hreplace packet direction rfl
  | pass => exact hhit.kept rfl
  | cancel => exact hhit.kept rfl

end Chain

/-! ## the content along a thread -/

def Note.directive? : Note → Option Directive
  | directed _ _ d => some d
  | happened _ | started _ | handed .. | ended .. | dropped _ | copied .. | redeemed ..
  | injected .. => none

/-- The directives that a thread tells of, the last one at the end. -/
def directives (T : List Note) : List Directive := T.filterMap Note.directive?

theorem directives_concat (T : List Note) (n : Note) :
    directives (T ++ [n]) = directives T ++ n.directive?.toList := by
  unfold directives
  rw [List.filterMap_append]
  cases h : n.directive? with
  | none => simp [h]
  | some d => simp [h]

variable {settings : BrokerSettings} {c₀ c : Chain} {ds : List Directive} {T : List Note}
  {l n : Note}

/-- What the next note is about carries what the one before has left. -/
theorem Follows.carries (h : Follows settings l n)
    (hl : ∀ x, l.after? settings.decodeMode = some x →
      Chain.Carries settings.decodeMode c₀ ds x)
    (hc : n.chain? = some c) : Chain.Carries settings.decodeMode c₀ ds c := by
  cases h with
  | handed _ hx =>
      cases hc
      exact (hl _ hx).visit _
  | directed _ _ =>
      cases hc
      exact hl _ rfl
  | ended _ hx =>
      cases hc
      exact (hl _ hx).leave
  | dropped =>
      cases hc
      exact hl _ rfl

/-- A note adds its directive to what has been applied. -/
theorem Follows.carries_after (h : Follows settings l n)
    (hl : ∀ x, l.after? settings.decodeMode = some x →
      Chain.Carries settings.decodeMode c₀ ds x) :
    ∀ x, n.after? settings.decodeMode = some x →
      Chain.Carries settings.decodeMode c₀ (ds ++ n.directive?.toList) x := by
  intro x hx
  cases n with
  | directed c cause d =>
      cases hx
      exact (h.carries hl rfl).taking d
  | started c | handed c client sent | ended c outcome | dropped c =>
      cases hx
      rw [Note.directive?, Option.toList_none, List.append_nil]
      exact h.carries hl rfl
  | happened | copied | redeemed | injected => cases hx

/-- **What a chain carries is what its thread says.** -/
theorem Legal.carries (h : Legal settings (.started c₀ :: T))
    (hp : Packet.decode settings.decodeMode c₀.bytes = .ok c₀.packet)
    (hl : (Note.started c₀ :: T).getLast? = some l) :
    ∀ x, l.after? settings.decodeMode = some x →
      Chain.Carries settings.decodeMode c₀ (directives T) x := by
  refine h.induct (P := fun T l => ∀ x, l.after? settings.decodeMode = some x →
    Chain.Carries settings.decodeMode c₀ (directives T) x) hl ?_ fun T k n _ _ hfollows hk => ?_
  · intro x hx
    cases hx
    exact Chain.carries_start hp
  · rw [directives_concat]
    exact hfollows.carries_after hk

/-- How a chain ends is told by the last directive. -/
theorem Legal.outcome_eq (h : Legal settings (.started c₀ :: T))
    (hl : (Note.started c₀ :: T).getLast? = some l) (hopens : l.opens = true) (c : Chain) :
    l.outcome c =
      if (directives T).getLast? = some .cancel then .cancelled c.outgoing
      else .forward c.outgoing := by
  refine h.induct (P := fun T l => l.opens = true → l.outcome c = if (directives T).getLast? =
    some .cancel then .cancelled c.outgoing else .forward c.outgoing) hl (fun _ => rfl) ?_ hopens
  intro T k n _ _ hfollows _ hopens
  -- only a directive opens something behind another note
  cases hfollows with
  | @directed _ _ _ _ d _ _ =>
      rw [directives_concat]
      cases d with
      | cancel => simp [Note.directive?, Note.outcome]
      | forward | pass | finish => simp [Note.directive?, Note.outcome]
  | handed | ended | dropped => cases hopens

/-! ## over every run -/

namespace Broker

variable {J p : List Note} {b : Broker}

/-- What a note is about carries what the thread says before the note. -/
theorem Run.carries_of_note (h : Run settings J b) (hp : p ++ [n] <+: J)
    (hc : n.chain? = some c) (hs : n.starts = false) :
    ∃ c₀ T l, thread c.id p = .started c₀ :: T ∧ Legal settings (.started c₀ :: T) ∧
      (Note.started c₀ :: T).getLast? = some l ∧ Follows settings l n ∧
      Chain.Carries settings.decodeMode c₀ (directives T) c := by
  obtain ⟨c₀, T, l, ht, hlegal, hfresh, hl, hfollows⟩ := h.follows_of_note hp hc hs
  exact ⟨c₀, T, l, ht, hlegal, hl, hfollows,
    hfollows.carries (hlegal.carries hfresh.decoded hl) hc⟩

/-- **A chain carries its packet faithfully.**  Whatever is applied to a chain over a run, the bytes
that it sends and ends with are those of the last replacement that decodes, else those submitted;
the direction is the last that such a replacement specified, else the one submitted; the flags are
those submitted.  The outcome is a cancellation exactly if the last directive was to cancel.  And
what a chain matches by is at all times what its bytes decode to. -/
theorem Run.content_kept (h : Run settings J b) :
    Accounted J b ∧
    (∀ (p : List Note) (c : Chain), p ++ [.started c] <+: J → ∃ J₀ b₀, Run settings J₀ b₀ ∧
      J₀ ++ [.happened (.submit c.bytes c.direction c.flags)] <+: p ∧
      p ++ [.started c] <+: J₀ ++ .happened (.submit c.bytes c.direction c.flags) ::
        b₀.notes (.submit c.bytes c.direction c.flags)) ∧
    (∀ n ∈ J, ∀ c, n.chain? = some c →
      Packet.decode settings.decodeMode c.bytes = .ok c.packet) ∧
    (∀ a ∈ b.chains, ∃ c₀ T, thread a.chain.id J = .started c₀ :: T ∧
      Packet.decode settings.decodeMode a.chain.bytes = .ok a.chain.packet ∧
      Content settings.decodeMode c₀ (directives T) a.chain.bytes a.chain.direction
        a.chain.flags) ∧
    (∀ (p : List Note) (c : Chain) (client : Client) (sent : Bool),
      p ++ [.handed c client sent] <+: J → ∃ c₀ T, thread c.id p = .started c₀ :: T ∧
        Content settings.decodeMode c₀ (directives T) (c.frameFor client).packet
          (c.frameFor client).direction (c.frameFor client).packetFlags) ∧
    (∀ (p : List Note) (c : Chain) (outcome : Outcome), p ++ [.ended c outcome] <+: J →
      ∃ c₀ T packet, thread c.id p = .started c₀ :: T ∧ packet.packetId = c.id ∧
        Content settings.decodeMode c₀ (directives T) packet.bytes packet.direction
          packet.flags ∧
        outcome = if (directives T).getLast? = some .cancel then .cancelled packet
          else .forward packet) := by
  refine ⟨h.accounted, fun p c hp => h.starts hp, fun n hn c hc => ?_, fun a ha => ?_,
    fun p c client sent hp => ?_, fun p c outcome hp => ?_⟩
  · cases hs : n.starts with
    | true =>
        cases n with
        | started d =>
            cases hc
            exact (h.threaded.fresh _ hn).decoded
        | _ => cases hs
    | false =>
        obtain ⟨p, q, rfl⟩ := List.append_of_mem hn
        obtain ⟨_, _, _, _, _, _, _, hcarries⟩ :=
          h.carries_of_note (p := p) (n := n) ⟨q, by simp⟩ hc hs
        exact hcarries.decoded
  · obtain ⟨client, hlast, _⟩ := h.threaded.waits a ha (fun f hf => by cases hf)
    obtain ⟨c₀, T, ht, hlegal, hfresh⟩ := h.thread_begins (List.prefix_refl J) hlast
    rw [ht] at hlast
    have hcarries := hlegal.carries hfresh.decoded hlast a.chain rfl
    exact ⟨c₀, T, ht, hcarries.decoded, hcarries.content⟩
  · obtain ⟨c₀, T, _, ht, _, _, _, hcarries⟩ := h.carries_of_note hp rfl rfl
    exact ⟨c₀, T, ht, hcarries.content⟩
  · obtain ⟨c₀, T, l, ht, hlegal, hl, hfollows, hcarries⟩ := h.carries_of_note hp rfl rfl
    cases hfollows with
    | ended hopens hx =>
        exact ⟨c₀, T, _, ht, rfl, hcarries.content, hlegal.outcome_eq hl hopens _⟩

/-- The first of two clients forwards bytes that do not decode the other way, the second one
finishes with a packet that leaves the direction open: the first answer changes nothing, the second
one the bytes. -/
theorem content_kept_past_garbage :
    ∃ J b, Run {} J b ∧
    b.outcomes = [(1, .forward ⟨1, [3, 0, 0, 0, 0], .clientToServer, 7, 2⟩)] ∧
    (directives (thread 1 J)).length = 2 ∧
    Accounted J b ∧
    ∀ (p : List Note) (c : Chain) (outcome : Outcome), p ++ [.ended c outcome] <+: J →
      ∃ c₀ T packet, thread c.id p = .started c₀ :: T ∧ packet.packetId = c.id ∧
        Content .relaxed c₀ (directives T) packet.bytes packet.direction packet.flags ∧
        outcome = if (directives T).getLast? = some .cancel then .cancelled packet
          else .forward packet := by
  let text : Interest := { id := 1, kind := .net .genericText }
  let run : List Event := [
    .register "first" [text] 4, .register "second" [text] 4,
    .submit [2, 0, 0, 0, 0] .clientToServer 7,
    .respond "first" ⟨1, 1, .forward [9] .serverToClient⟩,
    .respond "second" ⟨1, 1, .finish [3, 0, 0, 0, 0] .unspecified⟩]
  have h : Run {} _ (run.foldl Broker.step (.new {})) := Run.new.foldl run
  obtain ⟨haccounted, _, _, _, _, hended⟩ := h.content_kept
  exact ⟨_, _, h, by cbv, by cbv, haccounted, hended⟩

end Broker

end Intercept
