import Intercept.Proofs.Chain.Advance
import Intercept.Proofs.Registry.Order

/-!
# Intercept.Proofs.Registry.Unobserved

A registry without the interests that only ask for copies.

```
r.unobserved                  the same registrations, each with its blocking interests alone
matching_unobserved           whoever matches a packet there is whoever matches it and holds it
advance_unobserved            so a chain goes the same way by either
```
-/

namespace Intercept

/-- The registration with its blocking interests alone. -/
def Registration.unobserved (g : Registration) : Registration :=
  { g with interests := g.interests.filter (·.isBlocking) }

namespace Registry

/-- The registry without the interests that only ask for copies. -/
def unobserved (r : Registry) : Registry :=
  { r with
    registrations := r.registrations.map Registration.unobserved
    buckets := sift (·.interest.isBlocking) r.buckets }

/-- A name has the same registration there, with its blocking interests alone. -/
theorem get?_unobserved (r : Registry) (ext : String) :
    r.unobserved.get? ext = (r.get? ext).map Registration.unobserved := by
  unfold get? unobserved
  rw [List.find?_map]
  rfl

/-- What is left of the subscriptions is the blocking ones. -/
theorem subscriptions_unobserved (r : Registry) :
    r.unobserved.subscriptions = r.subscriptions.filter (·.interest.isBlocking) := by
  unfold subscriptions unobserved
  rw [List.flatMap_map, List.filter_flatMap]
  refine List.flatMap_congr fun g _ => ?_
  unfold Registration.subscriptions Registration.unobserved
  rw [List.filter_map]
  rfl

/-- What is left is a registry like any other. -/
theorem Filed.unobserved {r : Registry} (hr : r.Filed) : r.unobserved.Filed := by
  obtain ⟨cs, h, hsubs⟩ := hr.held
  constructor
  · have hnames : r.unobserved.registrations.map (·.ext) = r.registrations.map (·.ext) := by
      simp [Registry.unobserved, Registration.unobserved]
    rw [hnames]
    exact hr.names
  · refine ⟨_, h.sift (·.interest.isBlocking) rfl rfl, ?_⟩
    rw [subscriptions_unobserved, ← hsubs, List.filter_map]
    rfl

/-- Clients whose numbers grow can be picked before they are sorted, or after. -/
theorem filter_mergeSort_precedes {cs : List Client} (hseq : cs.Pairwise (·.seq < ·.seq))
    (p : Client → Bool) :
    (cs.mergeSort Client.precedes).filter p = (cs.filter p).mergeSort Client.precedes :=
  eq_mergeSort_precedes ((List.mergeSort_perm cs _).filter p) (hseq.sublist List.filter_sublist)
    ((pairwise_precedes_mergeSort cs).sublist List.filter_sublist)

/-- **Whoever matches without observers is whoever matches and holds the packet.** -/
theorem matching_unobserved {r : Registry} (hr : r.Filed) (p : Packet) (direction : Direction) :
    r.unobserved.matching p direction =
      (r.matching p direction).filter (·.interest.isBlocking) := by
  obtain ⟨cs, h, _⟩ := hr.held
  have h' : r.unobserved.Holds (cs.filter (·.interest.isBlocking)) := h.sift _ rfl rfl
  rw [h'.matching_eq, h.matching_eq,
    filter_mergeSort_precedes (h.numbered.sublist List.filter_sublist), List.filter_filter,
    List.filter_filter]
  congr 2
  funext c
  exact Bool.and_comm _ _

end Registry

namespace Chain

variable {r : Registry}

/-- A chain goes on the same way by either registry. -/
theorem goOn_unobserved (hr : r.Filed) (c : Chain) : c.goOn r.unobserved = c.goOn r := by
  unfold goOn
  rw [Registry.matching_unobserved hr, nextFrom_filter_isBlocking]

theorem advance_unobserved (hr : r.Filed) (c : Chain) (mode : DecodeMode) (d : Directive) :
    c.advance r.unobserved mode d = c.advance r mode d := by
  cases d with
  | forward packet direction => exact goOn_unobserved hr _
  | pass => exact goOn_unobserved hr _
  | finish packet direction => rfl
  | cancel => rfl

end Chain

end Intercept
