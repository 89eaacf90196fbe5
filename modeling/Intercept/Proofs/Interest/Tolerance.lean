import Mathlib
import Intercept.Proofs.Interest.Defect

/-!
# Intercept.Proofs.Interest.Tolerance

Tolerant equality held against exact equality, and against itself under
another tolerance.

```
v.pairs? lit        the numbers that are compared, two by two, and their width
MeetAtInfinity a b  a and b are the same infinity
Accepted eps        a tolerance that registration lets in, or none
```

1. Two scalars are one pair, two vectors one for each component; texts are
   compared without a tolerance (`equals?_of_text`).
2. A pair that is close stays close under a greater tolerance
   (`close_iff_of_close`), and equal numbers have the distance zero.
3. Two like infinities are equal, but they have no distance.  A tolerance of
   zero asks whether they are equal, every other one for their distance, so
   a pair that meets at infinity is close under zero alone.
-/

namespace Intercept

variable {a b t u : Extended} {v : Value} {lit : Literal} {f : Field} {p : Packet}
    {eps eps' : Option Binary32}

/-! ## Numbers -/

namespace Extended

/-- Both are the same infinity. -/
def MeetAtInfinity (a b : Extended) : Prop := ∃ s, a = .infinite s ∧ b = .infinite s

/-- Numbers are equal if they are the same, and that is not not-a-number. -/
theorem equals_iff : a.equals b = true ↔ a = b ∧ a ≠ .nan := by
  cases a <;> cases b <;> simp [equals, compare?]

/-- Finite numbers are ordered as they are. -/
theorem atMost_finite {m n : Int} : (finite m).atMost (finite n) = true ↔ m ≤ n := by
  simp only [atMost, compare?, Bool.or_eq_true, beq_iff_eq, Option.some.injEq, compare_lt_iff_lt,
    compare_eq_iff_eq]
  exact le_iff_lt_or_eq.symm

/-- What is at most a finite number is no infinity. -/
theorem abs_atMost_iff {n : Nat} :
    a.abs.atMost (.finite n) = true ↔ ∃ i, a = .finite i ∧ i.natAbs ≤ n := by
  cases a with
  | nan => simp [abs, atMost, compare?]
  | infinite s => simp [abs, atMost, compare?]
  | finite i =>
    have hi : (i.natAbs : Int) ≤ n ↔ i.natAbs ≤ n := Int.ofNat_le
    rw [abs, atMost_finite, hi]
    simp

/-- A tolerance that is not bad is a finite number from zero on. -/
theorem not_badTolerance_iff : ¬ t.BadTolerance ↔ ∃ n : Nat, t = .finite n := by
  cases t with
  | nan => simp [BadTolerance, isFinite]
  | infinite s => simp [BadTolerance, isFinite]
  | finite i =>
    have hi : (∃ n : Nat, i = n) ↔ 0 ≤ i :=
      ⟨by rintro ⟨n, rfl⟩; omega, fun h => ⟨i.toNat, by omega⟩⟩
    simp [BadTolerance, isFinite, isNegative, hi]

end Extended

open Extended

namespace Format

theorem round_zero (f : Format) (den : Nat) : f.round 0 den = .finite 0 := by
  have hnearest : ∀ den, nearest 0 den = 0 := fun den => by simp [nearest]
  simp [round, roundMagnitude, hnearest]

/-- A finite number has the distance zero from itself. -/
theorem sub_self (f : Format) (i : Int) : f.sub (.finite i) (.finite i) = .finite 0 := by
  rw [sub, Int.sub_self, round_zero]

end Format

namespace Value

/-- Under a tolerance that is not zero the distance decides. -/
theorem close_of_ne_zero {f : Format} {n : Nat} (hn : n ≠ 0) :
    close f a b (.finite n) = f.within a b (.finite n) := by
  have hne : ¬ (Extended.finite (n : Int)).equals (.finite 0) = true := by simp [equals_iff, hn]
  rw [close, if_neg hne]

/-- Equal numbers are within every tolerance, unless they have no distance. -/
theorem within_of_equals {f : Format} {n : Nat} (h : a.equals b = true) :
    f.within a b (.finite n) = true ↔ ¬ MeetAtInfinity a b := by
  obtain ⟨rfl, hnan⟩ := equals_iff.mp h
  cases a with
  | nan => exact absurd rfl hnan
  | infinite s => simp [Format.within, Format.sub, Extended.abs, atMost, compare?, MeetAtInfinity]
  | finite i => simp [Format.within, Format.sub_self, abs_atMost_iff, MeetAtInfinity]

/-- **Two numbers that are close stay close under a greater tolerance**, but for two like
infinities, which are close under the tolerance zero alone. -/
theorem close_iff_of_close {f : Format} {m n : Nat} (hmn : m ≤ n)
    (h : close f a b (.finite m) = true) :
    close f a b (.finite n) = true ↔ m ≠ 0 ∨ n = 0 ∨ ¬ MeetAtInfinity a b := by
  rcases Nat.eq_zero_or_pos m with rfl | hm
  · have hequal : a.equals b = true := h
    rcases Nat.eq_zero_or_pos n with rfl | hn
    · exact iff_of_true h (.inr (.inl rfl))
    · rw [close_of_ne_zero hn.ne', within_of_equals hequal]
      simp [hn.ne']
  · have hn : n ≠ 0 := by omega
    rw [close_of_ne_zero hm.ne'] at h
    obtain ⟨i, hi, him⟩ := abs_atMost_iff.mp h
    have hwithin : f.within a b (.finite n) = true := abs_atMost_iff.mpr ⟨i, hi, him.trans hmn⟩
    rw [close_of_ne_zero hn]
    simp [hwithin, hm.ne']

/-! ## Values -/

/-- The numbers of a value and a literal that are compared, two by two, and the format of their
distance. -/
def pairs? (v : Value) (lit : Literal) : Option (Format × List (Extended × Extended)) :=
  match v, lit with
  | vec2 x y, .vec2 lx ly => some (.single, [(x.value, lx.value), (y.value, ly.value)])
  | vec3 x y z, .vec3 lx ly lz =>
    some (.single, [(x.value, lx.value), (y.value, ly.value), (z.value, lz.value)])
  | v, lit => do
    let a ← v.number?
    let b ← lit.number?
    return (.double, [(a, b)])

/-- Equality with anything but a text is equality of all pairs. -/
theorem equals?_eq_pairs? (hl : lit.bytes? = none) (t : Extended) :
    v.equals? lit t = (v.pairs? lit).map fun fp => fp.2.all fun ab => close fp.1 ab.1 ab.2 t := by
  cases v <;> cases lit <;> simp_all [equals?, pairs?, Literal.bytes?, Option.map_bind,
    Bool.and_assoc]

/-- Somewhere a value and a literal are the same infinity. -/
def MeetsAtInfinity (v : Value) (lit : Literal) : Prop :=
  ∃ f pairs, v.pairs? lit = some (f, pairs) ∧ ∃ ab ∈ pairs, MeetAtInfinity ab.1 ab.2

/-- Nothing meets a text at infinity. -/
theorem not_meetsAtInfinity_of_text (hl : lit.bytes?.isSome) : ¬ v.MeetsAtInfinity lit := by
  rintro ⟨f, pairs, hpairs, _⟩
  cases lit with
  | str _ | bytes _ => cases v <;> simp [pairs?, Literal.number?] at hpairs
  | _ => simp [Literal.bytes?] at hl

/-- What equals a literal under a tolerance does so under a greater one, but for infinities. -/
theorem equals?_iff_of_equals? {m n : Nat} (hmn : m ≤ n)
    (h : v.equals? lit (.finite m) = some true) :
    v.equals? lit (.finite n) = some true ↔ m ≠ 0 ∨ n = 0 ∨ ¬ v.MeetsAtInfinity lit := by
  cases hl : lit.bytes? with
  | some text =>
    have hs : lit.bytes?.isSome := by rw [hl]; rfl
    rw [equals?_of_text hs] at h ⊢
    exact iff_of_true h (.inr (.inr (not_meetsAtInfinity_of_text hs)))
  | none =>
    rw [equals?_eq_pairs? hl] at h ⊢
    obtain ⟨⟨f, pairs⟩, hpairs, hclose⟩ := Option.map_eq_some_iff.mp h
    have hclose : ∀ ab ∈ pairs, close f ab.1 ab.2 (.finite m) = true := List.all_eq_true.mp hclose
    rw [hpairs, Option.map_some, Option.some.injEq, List.all_eq_true]
    calc (∀ ab ∈ pairs, close f ab.1 ab.2 (.finite n) = true)
        ↔ ∀ ab ∈ pairs, m ≠ 0 ∨ n = 0 ∨ ¬ MeetAtInfinity ab.1 ab.2 :=
          forall₂_congr fun ab hab => close_iff_of_close hmn (hclose ab hab)
      _ ↔ m ≠ 0 ∨ n = 0 ∨ ¬ v.MeetsAtInfinity lit := by
          simp only [MeetsAtInfinity, hpairs, Option.some.injEq, Prod.mk.injEq]
          grind

end Value

/-! ## Clauses -/

namespace Clause

/-- The tolerance that a clause goes by. -/
def tolerance (eps : Option Binary32) : Extended := (eps.getD defaultEps).value

/-- A tolerance that registration lets in, or none. -/
def Accepted (eps : Option Binary32) : Prop := ∀ e, eps = some e → ¬ e.value.BadTolerance

/-- Somewhere the field of the packet and the literal are the same infinity. -/
def MeetsAtInfinity (f : Field) (p : Packet) (lit : Literal) : Prop :=
  ∃ v, f.resolve p = some v ∧ v.MeetsAtInfinity lit

/-- Registration lets a tolerant clause in if its literal is no text and its tolerance is accepted.
-/
theorem defect?_eqEps_eq_none_iff :
    defect? ⟨f, .eqEps, lit, eps⟩ = none ↔ lit.bytes? = none ∧ Accepted eps := by
  cases hl : lit.bytes? with
  | some text => simp [defect?, hl, Op.isText, Op.isOrder]
  | none =>
    cases eps with
    | none => simp [defect?, hl, Accepted, Op.isText, Op.isOrder]
    | some e => simp [defect?, hl, Accepted, Op.isText, Op.isOrder, BadTolerance]

/-- A tolerance that registration lets in is finite. -/
theorem Accepted.exists_tolerance (h : Accepted eps) : ∃ n : Nat, tolerance eps = .finite n := by
  rw [← not_badTolerance_iff]
  cases eps with
  | none =>
    have : defaultEps.value.isFinite = true ∧ defaultEps.value.isNegative = false := by
      decide +kernel
    simp [tolerance, BadTolerance, this]
  | some e => exact h e rfl

/-- Equality is tolerant equality under zero. -/
theorem holds_eq_iff :
    Holds f lit eps p .eq ↔ ∃ v, f.resolve p = some v ∧ v.equals? lit (.finite 0) = some true := by
  rw [Holds, eval]
  cases f.resolve p <;> simp [holds]

/-- Tolerant equality goes by the tolerance of its clause. -/
theorem holds_eqEps_iff :
    Holds f lit eps p .eqEps ↔
      ∃ v, f.resolve p = some v ∧ v.equals? lit (tolerance eps) = some true := by
  rw [Holds, eval]
  cases f.resolve p <;> simp [holds, tolerance]

/-- Where a field has a value, the clauses speak of that value. -/
theorem meetsAtInfinity_iff (hv : f.resolve p = some v) :
    MeetsAtInfinity f p lit ↔ v.MeetsAtInfinity lit := by
  simp [MeetsAtInfinity, hv]

/-- **Tolerant equality takes in exact equality and grows with the tolerance, but at infinity.**
Where field and literal are the same infinity they are equal, also under the tolerance zero, and
under no other tolerance that registration lets in. -/
theorem tolerant_but_at_infinity (f : Field) (lit : Literal) (p : Packet) (he : Accepted eps) :
    (∀ eps₀, Holds f lit eps₀ p .eq →
      (Holds f lit eps p .eqEps ↔ tolerance eps = .finite 0 ∨ ¬ MeetsAtInfinity f p lit)) ∧
    (∀ eps', Accepted eps' → (tolerance eps).atMost (tolerance eps') = true →
      Holds f lit eps p .eqEps →
      (Holds f lit eps' p .eqEps ↔
        tolerance eps ≠ .finite 0 ∨ tolerance eps' = .finite 0 ∨ ¬ MeetsAtInfinity f p lit)) ∧
    Accepted none ∧
    ∀ eps, defect? ⟨f, .eqEps, lit, eps⟩ = none ↔ lit.bytes? = none ∧ Accepted eps := by
  obtain ⟨m, hm⟩ := he.exists_tolerance
  refine ⟨fun eps₀ heq => ?_, fun eps' he' hle hclose => ?_, nofun,
    fun _ => defect?_eqEps_eq_none_iff⟩
  · obtain ⟨v, hv, hequal⟩ := holds_eq_iff.mp heq
    have hgrow := Value.equals?_iff_of_equals? (m := 0) (Nat.zero_le m) hequal
    simpa [holds_eqEps_iff, hv, hm, meetsAtInfinity_iff hv] using hgrow
  · obtain ⟨n, hn⟩ := he'.exists_tolerance
    obtain ⟨v, hv, hequal⟩ := holds_eqEps_iff.mp hclose
    rw [hm] at hequal
    have hmn : m ≤ n := by simpa [hm, hn, atMost_finite] using hle
    have hgrow := Value.equals?_iff_of_equals? hmn hequal
    simpa [holds_eqEps_iff, hv, hm, hn, meetsAtInfinity_iff hv] using hgrow

/-- The text packet that says `5`. -/
def sayingFive : Packet := ⟨.genericText, .table (Table.decode [53])⟩

/-- What says five is five and a quarter to within a half, and so to within one. -/
theorem tolerant_but_at_infinity_five :
    Accepted (some ⟨0x3f000000⟩) ∧ Accepted (some ⟨0x3f800000⟩) ∧
    (tolerance (some ⟨0x3f000000⟩)).atMost (tolerance (some ⟨0x3f800000⟩)) = true ∧
    Holds onlyCell (.f32 ⟨0x40a80000⟩) (some ⟨0x3f000000⟩) sayingFive .eqEps ∧
    Holds onlyCell (.f32 ⟨0x40a80000⟩) (some ⟨0x3f800000⟩) sayingFive .eqEps := by
  have haccepted : ∀ e ∈ [⟨0x3f000000⟩, ⟨0x3f800000⟩], Accepted (some e) := by
    intro e he
    have hlet : ∀ e ∈ [⟨0x3f000000⟩, ⟨0x3f800000⟩],
        defect? ⟨onlyCell, .eqEps, .f32 ⟨0x40a80000⟩, some e⟩ = none := by decide +kernel
    exact (defect?_eqEps_eq_none_iff.mp (hlet e he)).2
  have hhalf : Accepted (some ⟨0x3f000000⟩) := haccepted _ (by simp)
  have hone : Accepted (some ⟨0x3f800000⟩) := haccepted _ (by simp)
  have hle : (tolerance (some ⟨0x3f000000⟩)).atMost (tolerance (some ⟨0x3f800000⟩)) = true := by
    decide +kernel
  have hnear : eval ⟨onlyCell, .eqEps, .f32 ⟨0x40a80000⟩, some ⟨0x3f000000⟩⟩ sayingFive = true := by
    decide +kernel
  have hnonzero : tolerance (some ⟨0x3f000000⟩) ≠ .finite 0 := by decide +kernel
  obtain ⟨_, hgrow, _⟩ := tolerant_but_at_infinity onlyCell (.f32 ⟨0x40a80000⟩) sayingFive hhalf
  exact ⟨hhalf, hone, hle, hnear, (hgrow _ hone hle hnear).mpr (.inl hnonzero)⟩

/-- The text packet that says `inf`. -/
def sayingInf : Packet := ⟨.genericText, .table (Table.decode [105, 110, 102])⟩

/-- The infinite literal. -/
def infinity : Literal := .f32 ⟨0x7f800000⟩

/-- A field that equals a literal, also under the tolerance zero, is not close to it under the
default one, though registration lets all three clauses in. -/
theorem equal_yet_not_close :
    Packet.decode .relaxed [2, 0, 0, 0, 105, 110, 102, 0] = .ok sayingInf ∧
    (∀ eps ∈ [none, some ⟨0⟩], defect? ⟨onlyCell, .eqEps, infinity, eps⟩ = none) ∧
    (tolerance (some ⟨0⟩)).atMost (tolerance none) = true ∧
    Holds onlyCell infinity none sayingInf .eq ∧
    Holds onlyCell infinity (some ⟨0⟩) sayingInf .eqEps ∧
      ¬ Holds onlyCell infinity none sayingInf .eqEps := by
  unfold Holds
  exact ⟨by cbv, by decide +kernel, by decide +kernel, by decide +kernel, by decide +kernel,
    by decide +kernel⟩

end Clause

end Intercept
