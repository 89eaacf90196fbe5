import Mathlib
import Intercept.Proofs.Interest.Comparison

/-!
# Intercept.Proofs.Interest.Defect

What a clause with a defect would do if it were let in.

1. With a literal that its operator cannot use it holds of no packet, but for
   one operator: tolerant equality with a text is plain equality with it
   (`equals?_of_text`).
2. A bad tolerance makes only tolerant equality false, and an infinite one not
   even that: everything with a distance is within it (`close_of_bad`). Every
   other operator goes by what it would say without a tolerance
   (`holds_congr_eps`).
-/

namespace Intercept

variable {a b t : Extended} {v : Value} {lit : Literal} {op : Op} {c : Clause} {d : ClauseDefect}

/-! ## Bad tolerances -/

namespace Extended

/-- A tolerance that is no finite number from zero on. -/
def BadTolerance (t : Extended) : Prop := t.isFinite = false ∨ t.isNegative = true

/-- Two values have a distance: both are numbers, and they are not the same infinity. -/
def Apart (a b : Extended) : Prop :=
  a ≠ .nan ∧ b ≠ .nan ∧ ∀ s, ¬ (a = .infinite s ∧ b = .infinite s)

/-- A bad tolerance is not zero. -/
theorem BadTolerance.equals_zero (h : t.BadTolerance) : t.equals (.finite 0) = false := by
  cases t with
  | nan => rfl
  | infinite s => cases s <;> rfl
  | finite n =>
    have hn : n < 0 := by simpa [BadTolerance, isFinite, isNegative] using h
    simp [equals, compare?, compare_lt_iff_lt.mpr hn]

/-- No size is at most a bad tolerance, but for the infinite one. -/
theorem BadTolerance.abs_atMost (h : t.BadTolerance) :
    a.abs.atMost t = true ↔ t = .infinite false ∧ a ≠ .nan := by
  cases t with
  | nan => cases a <;> simp [abs, atMost, compare?]
  | infinite s => cases s <;> cases a <;> simp [abs, atMost, compare?]
  | finite n =>
    have hn : n < 0 := by simpa [BadTolerance, isFinite, isNegative] using h
    cases a with
    | nan | infinite _ => simp [abs, atMost, compare?]
    | finite m =>
      have hm : compare (m.natAbs : Int) n = .gt := compare_gt_iff_gt.mpr (by omega)
      simp only [abs, atMost, compare?, hm]
      simp

end Extended

open Extended

namespace Format

variable {f : Format}

/-- Rounding makes no not-a-number. -/
theorem round_ne_nan {num : Int} {den : Nat} : f.round num den ≠ .nan := by
  unfold round
  split <;> simp

/-- Two numbers have a distance unless one is not-a-number, or they are the same infinity. -/
theorem sub_ne_nan_iff : f.sub a b ≠ .nan ↔ Apart a b := by
  cases a <;> cases b <;> simp [sub, Apart, round_ne_nan, @eq_comm Bool]

end Format

namespace Value

/-- Under a bad tolerance only the infinite one finds two values close, and then all that have a
distance. -/
theorem close_of_bad {f : Format} (ht : t.BadTolerance) :
    close f a b t = true ↔ t = .infinite false ∧ Apart a b := by
  simp only [close, ht.equals_zero, Bool.false_eq_true, if_false, Format.within, ht.abs_atMost,
    Format.sub_ne_nan_iff]

/-- A value and a literal have a distance: two numbers, or two vectors of one length in every
component. -/
def Measured (v : Value) (lit : Literal) : Prop :=
  match v, lit with
  | vec2 x y, .vec2 lx ly => Apart x.value lx.value ∧ Apart y.value ly.value
  | vec3 x y z, .vec3 lx ly lz =>
    Apart x.value lx.value ∧ Apart y.value ly.value ∧ Apart z.value lz.value
  | v, lit => ∃ a b, v.number? = some a ∧ lit.number? = some b ∧ Apart a b

/-- A value is measured by a number if it has one that is apart from it. -/
theorem measured_of_number (hb : lit.number? = some b) :
    Measured v lit ↔ ∃ a, v.number? = some a ∧ Apart a b := by
  obtain ⟨n, rfl⟩ | ⟨i, rfl⟩ | ⟨x, rfl⟩ := Literal.number?_cases hb <;> cases v <;>
    simp [Measured, hb]

/-- Under a bad tolerance numbers are equal only if it is infinite and they have a distance. -/
theorem equals?_of_bad (ht : t.BadTolerance) (hl : lit.bytes? = none) :
    v.equals? lit t = some true ↔ t = .infinite false ∧ Measured v lit := by
  cases hb : lit.number? with
  | some b =>
    rw [equals?_of_number hb, measured_of_number hb]
    cases v.number? <;> simp [close_of_bad ht]
  | none =>
    cases v <;> cases lit <;>
      simp_all [equals?, Measured, close_of_bad ht, and_assoc, Literal.bytes?, Literal.number?,
        number?]

/-- No tolerance softens equality with a text. -/
theorem equals?_of_text (hl : lit.bytes?.isSome) : v.equals? lit t = v.equals? lit (.finite 0) := by
  cases lit with
  | str _ | bytes _ => cases v <;> simp [equals?, Literal.number?]
  | _ => simp [Literal.bytes?] at hl

end Value

/-! ## The defects, one by one -/

namespace Clause

/-- What each defect says of a clause that has it first. -/
theorem defect?_eq_some (h : c.defect? = some d) :
    (d = .textLiteral ∧ c.op.isText = true ∧ c.literal.bytes? = none) ∨
    (d = .numericLiteral ∧ c.op.isOrder = true ∧ c.literal.number? = none) ∨
    (d = .integerMask ∧ c.op = .bitTest ∧ c.literal.mask? = none) ∨
    (d = .tolerantLiteral ∧ c.op = .eqEps ∧ c.literal.bytes?.isSome) ∨
    (d = .tolerance ∧ (c.op = .eqEps → c.literal.bytes? = none) ∧
      ∃ e, c.eps = some e ∧ e.value.BadTolerance) := by
  simp only [defect?, Option.isNone_iff_eq_none] at h
  split_ifs at h with htext hnumber hmask htolerant
  · exact .inl ⟨(Option.some.inj h).symm, htext⟩
  · exact .inr (.inl ⟨(Option.some.inj h).symm, hnumber⟩)
  · exact .inr (.inr (.inl ⟨(Option.some.inj h).symm, hmask⟩))
  · exact .inr (.inr (.inr (.inl ⟨(Option.some.inj h).symm, htolerant⟩)))
  · cases heps : c.eps with
    | none => simp [heps] at h
    | some e =>
      simp only [heps, Option.ite_none_right_eq_some, Option.some.injEq, Bool.not_eq_true'] at h
      obtain ⟨hbad, rfl⟩ := h
      refine .inr (.inr (.inr (.inr ⟨rfl, fun hop => ?_, e, rfl, hbad⟩)))
      simpa [hop] using htolerant

/-- An operator on texts holds of nothing for a literal that is none. -/
theorem holds_of_no_text {e : Binary32} (hop : op.isText = true) (hl : lit.bytes? = none) :
    holds op v lit e = false := by
  cases op <;> simp [Op.isText] at hop <;> simp only [holds, hl] <;> cases v.bytes? <;> rfl

/-- An ordering holds of nothing for a literal that is no number. -/
theorem holds_of_no_order {e : Binary32} (hop : op.isOrder = true) (hl : lit.number? = none) :
    holds op v lit e = false := by
  have horder : v.order? lit = none := by simp [Value.order?, hl]
  cases op <;> simp [Op.isOrder] at hop <;> simp [holds, horder]

/-- A bit test holds of nothing for a literal that is no mask. -/
theorem holds_of_no_mask {e : Binary32} (hl : lit.mask? = none) :
    holds .bitTest v lit e = false := by
  simp only [holds, hl]
  cases v.bits? <;> rfl

/-- Only tolerant equality looks at the tolerance. -/
theorem holds_congr_eps (hop : op ≠ .eqEps) (e e' : Binary32) :
    holds op v lit e = holds op v lit e' := by
  cases op <;> first | rfl | exact absurd rfl hop

/-- A clause that registration refuses holds of no packet, unless it is refused for a literal or a
tolerance that does no harm. -/
theorem eval_of_defect (p : Packet) (h : c.defect? = some d) : c.eval p = true ↔
    (d = .tolerantLiteral ∧ eval { c with op := .eq } p = true) ∨
    (d = .tolerance ∧ c.op ≠ .eqEps ∧ eval { c with eps := none } p = true) ∨
    (d = .tolerance ∧ c.op = .eqEps ∧ ∃ e v, c.eps = some e ∧ e.value = .infinite false ∧
      c.field.resolve p = some v ∧ v.Measured c.literal) := by
  simp only [eval]
  cases hv : c.field.resolve p with
  | none => simp
  | some v =>
    rcases defect?_eq_some h with
      ⟨rfl, hop, hl⟩ | ⟨rfl, hop, hl⟩ | ⟨rfl, hop, hl⟩ | ⟨rfl, hop, hl⟩ |
      ⟨rfl, hl, e, he, hbad⟩
    · simp [holds_of_no_text hop hl]
    · simp [holds_of_no_order hop hl]
    · simp [hop, holds_of_no_mask hl]
    · simp [hop, holds, Value.equals?_of_text hl]
    · by_cases hop : c.op = .eqEps
      · simp [hop, he, holds, Value.equals?_of_bad hbad (hl hop)]
      · simp [hop, holds_congr_eps hop _ defaultEps]

/-- Equality of a cell with a text, under a tolerance of minus one. -/
def idlyTolerant : Clause := ⟨onlyCell, .eq, .str "a", some ⟨0xbf800000⟩⟩

/-- The text packet that says `a`. -/
def sayingA : Packet := ⟨.genericText, .table (Table.decode [97])⟩

/-- A tolerance of minus one is a defect, though equality does not use it. -/
theorem defect?_idlyTolerant : idlyTolerant.defect? = some .tolerance := by decide +kernel

/-- With this defect a clause holds of a packet all the same. -/
theorem eval_of_defect_idlyTolerant :
    idlyTolerant.defect? = some .tolerance ∧ idlyTolerant.eval sayingA = true :=
  ⟨defect?_idlyTolerant,
    (eval_of_defect sayingA defect?_idlyTolerant).mpr (.inr (.inl ⟨rfl, by decide, by cbv⟩))⟩

/-- Registration refuses a clause that holds of a packet. -/
theorem refused_though_true : Packet.decode .relaxed [2, 0, 0, 0, 97, 0] = .ok sayingA ∧
    idlyTolerant.defect? = some .tolerance ∧ idlyTolerant.eval sayingA = true :=
  ⟨by cbv, defect?_idlyTolerant, by cbv⟩

end Clause

end Intercept
