import Intercept.Broker.Chain

/-!
# Intercept.Proofs.Chain.Advance

What one directive can do to a chain, said once.

```
c.advance r mode d = (.dispatch client, x.visit client)    client unvisited, matching x
                   | (.finished, x.leave)
                   | (.cancelled, x.leave)                  where x = c.taking mode d
```

`c.taking mode d` is the chain with the directive counted and its packet, if
it has one that decodes, taken over.  Later proofs use `advance_cases`, or
`advance_of_goesOn` and its two siblings where it matters which directive it
is, and the projections of `taking`; they never open `advance`.
-/

namespace Intercept

/-- The packet that a directive brings, and the direction that it gives it. -/
def Directive.packet? : Directive → Option (Bytes × Direction)
  | forward packet direction | finish packet direction => some (packet, direction)
  | pass | cancel => none

/-- Whether the chain goes on to whoever is next, as after `forward` and `pass`. -/
def Directive.goesOn : Directive → Bool
  | forward .. | pass => true
  | finish .. | cancel => false

namespace Chain

/-! ## taking a directive -/

/-- The chain with a directive counted and the packet that it brings taken over. -/
def taking (c : Chain) (mode : DecodeMode) : Directive → Chain
  | .forward packet direction | .finish packet direction => c.hit.replace mode packet direction
  | .pass | .cancel => c.hit

/-- A packet that is taken over leaves everything else alone. -/
theorem replace_eq (c : Chain) (mode : DecodeMode) (bytes : Bytes) (direction : Direction) :
    ∃ bs p d, c.replace mode bytes direction =
      { c with bytes := bs, packet := p, direction := d } := by
  unfold replace
  split
  · exact ⟨_, _, _, rfl⟩
  · exact ⟨c.bytes, c.packet, c.direction, rfl⟩

/-- What a directive leaves alone, whatever it brings. -/
theorem taking_eq (c : Chain) (mode : DecodeMode) (d : Directive) :
    ∃ bs p dir, c.taking mode d = { c.hit with bytes := bs, packet := p, direction := dir } := by
  cases d with
  | forward packet direction => exact replace_eq c.hit mode packet direction
  | finish packet direction => exact replace_eq c.hit mode packet direction
  | pass => exact ⟨c.bytes, c.packet, c.direction, rfl⟩
  | cancel => exact ⟨c.bytes, c.packet, c.direction, rfl⟩

@[simp] theorem taking_id (c : Chain) (mode : DecodeMode) (d : Directive) :
    (c.taking mode d).id = c.id := by
  obtain ⟨bs, p, dir, h⟩ := taking_eq c mode d
  rw [h]
  rfl

@[simp] theorem taking_visited (c : Chain) (mode : DecodeMode) (d : Directive) :
    (c.taking mode d).visited = c.visited := by
  obtain ⟨bs, p, dir, h⟩ := taking_eq c mode d
  rw [h]
  rfl

@[simp] theorem taking_hitCount (c : Chain) (mode : DecodeMode) (d : Directive) :
    (c.taking mode d).hitCount = min (c.hitCount + 1) maxHits := by
  obtain ⟨bs, p, dir, h⟩ := taking_eq c mode d
  rw [h]
  rfl

/-! ## the next client -/

theorem mayAsk_iff (c : Chain) (client : Client) :
    c.mayAsk client = true ↔ client.interest.isBlocking = true ∧ client.key ∉ c.visited := by
  simp [mayAsk, hasVisited]

/-- The chain goes to a candidate that may be asked, or it is finished. -/
theorem nextFrom_cases (c : Chain) (candidates : List Client) :
    (∃ client ∈ candidates, c.mayAsk client = true ∧
        c.nextFrom candidates = (.dispatch client, c.visit client)) ∨
      c.nextFrom candidates = (.finished, c.leave) := by
  cases h : candidates.find? c.mayAsk with
  | none => exact .inr (by simp only [nextFrom, h])
  | some client =>
      have hask : c.mayAsk client = true := List.find?_some h
      exact .inl ⟨client, List.mem_of_find?_eq_some h, hask, by simp only [nextFrom, h]⟩

/-- Observers among the candidates are passed over. -/
theorem nextFrom_filter_isBlocking (c : Chain) (candidates : List Client) :
    c.nextFrom (candidates.filter (·.interest.isBlocking)) = c.nextFrom candidates := by
  have hfind : (candidates.filter (·.interest.isBlocking)).find? c.mayAsk =
      candidates.find? c.mayAsk := by
    rw [List.find?_filter]
    congr 1
    funext client
    cases hb : client.interest.isBlocking with
    | false => simp [mayAsk, hb]
    | true => simp
  unfold nextFrom
  rw [hfind]

@[simp] theorem nextFrom_id (c : Chain) (candidates : List Client) :
    (c.nextFrom candidates).2.id = c.id := by
  obtain ⟨client, _, _, h⟩ | h := nextFrom_cases c candidates
  · rw [h]; rfl
  · rw [h]; rfl

/-- **What a directive can do to a chain.** -/
theorem advance_cases (c : Chain) (r : Registry) (mode : DecodeMode) (d : Directive) :
    (∃ client ∈ r.matching (c.taking mode d).packet (c.taking mode d).direction,
        (c.taking mode d).mayAsk client = true ∧
          c.advance r mode d = (.dispatch client, (c.taking mode d).visit client)) ∨
      c.advance r mode d = (.finished, (c.taking mode d).leave) ∨
      c.advance r mode d = (.cancelled, (c.taking mode d).leave) := by
  cases d with
  | forward packet direction =>
      cases nextFrom_cases (c.hit.replace mode packet direction) (r.matching _ _) with
      | inl h => exact .inl h
      | inr h => exact .inr (.inl h)
  | pass =>
      cases nextFrom_cases c.hit (r.matching c.hit.packet c.hit.direction) with
      | inl h => exact .inl h
      | inr h => exact .inr (.inl h)
  | finish packet direction => exact .inr (.inl rfl)
  | cancel => exact .inr (.inr rfl)

theorem advance_of_goesOn (c : Chain) (r : Registry) (mode : DecodeMode) {d : Directive}
    (h : d.goesOn = true) : c.advance r mode d = (c.taking mode d).goOn r := by
  cases d with
  | forward packet direction => rfl
  | pass => rfl
  | finish packet direction => cases h
  | cancel => cases h

theorem advance_finish (c : Chain) (r : Registry) (mode : DecodeMode) (packet : Bytes)
    (direction : Direction) : c.advance r mode (.finish packet direction) =
      (.finished, (c.taking mode (.finish packet direction)).leave) := rfl

theorem advance_cancel (c : Chain) (r : Registry) (mode : DecodeMode) :
    c.advance r mode .cancel = (.cancelled, (c.taking mode .cancel).leave) := rfl

@[simp] theorem advance_id (c : Chain) (r : Registry) (mode : DecodeMode) (d : Directive) :
    (c.advance r mode d).2.id = c.id := by
  obtain ⟨client, _, _, h⟩ | h | h := advance_cases c r mode d
  · rw [h]; exact taking_id c mode d
  · rw [h]; exact taking_id c mode d
  · rw [h]; exact taking_id c mode d

end Chain

end Intercept
