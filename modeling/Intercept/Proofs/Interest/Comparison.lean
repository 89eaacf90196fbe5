import Mathlib
import Intercept.Interest.Clause

/-!
# Intercept.Proofs.Interest.Comparison

The six comparisons of a field with a number, held against each other.

1. Each of them is a question about one thing, the order of the two numbers,
   which is less, equal, greater, or none (`Op.admits`, `holds_of_number`).
2. Where the field has no number, all six are false (`holds_of_no_number`).
3. There is no order only if one of the numbers is not-a-number
   (`compare?_eq_none_iff`). Then equality still has an answer, which is no,
   and so inequality holds though neither side is less.
-/

namespace Intercept

variable {a b : Extended} {v : Value} {lit : Literal} {f : Field} {p : Packet} {op : Op}
    {eps : Option Binary32}

/-- Numbers have no order if and only if one of them is not-a-number. -/
theorem Extended.compare?_eq_none_iff : a.compare? b = none ↔ a = .nan ∨ b = .nan := by
  cases a <;> cases b <;> simp [compare?]

namespace Op

/-- The operators that compare numbers without a tolerance. -/
def comparisons : List Op := [eq, neq, gt, gte, lt, lte]

/-- Whether a comparison holds between two numbers with this order. -/
def admits (op : Op) (order : Option Ordering) : Bool :=
  match op with
  | eq => order = some .eq
  | neq => order ≠ some .eq
  | gt => order = some .gt
  | gte => order = some .gt ∨ order = some .eq
  | lt => order = some .lt
  | lte => order = some .lt ∨ order = some .eq
  | _ => false

end Op

/-- A literal with a number is one of three kinds. -/
theorem Literal.number?_cases (hb : lit.number? = some b) :
    (∃ n, lit = .u32 n) ∨ (∃ i, lit = .i32 i) ∨ ∃ x, lit = .f32 x := by
  cases lit <;> simp_all [number?]

namespace Value

/-- With a number on the right, equality is about the number on the left. -/
theorem equals?_of_number (hb : lit.number? = some b) (tolerance : Extended) :
    v.equals? lit tolerance = v.number?.map fun a => close .double a b tolerance := by
  obtain ⟨n, rfl⟩ | ⟨i, rfl⟩ | ⟨x, rfl⟩ := Literal.number?_cases hb <;>
    cases v <;> simp [equals?, hb, Option.map_eq_bind]

/-- A value is ordered against a number by its own. -/
theorem order?_of_number (hb : lit.number? = some b) :
    v.order? lit = v.number?.bind (·.compare? b) := by
  simp [order?, hb]

end Value

namespace Clause

/-- A comparison of two numbers goes by their order. -/
theorem holds_of_number (hop : op ∈ Op.comparisons) (ha : v.number? = some a)
    (hb : lit.number? = some b) (e : Binary32) : holds op v lit e = op.admits (a.compare? b) := by
  have hequals : v.equals? lit (.finite 0) = some (a.equals b) := by
    rw [Value.equals?_of_number hb, ha]
    rfl
  have horder : v.order? lit = a.compare? b := by
    rw [Value.order?_of_number hb, ha, Option.bind_some]
  simp only [Op.comparisons, List.mem_cons, List.not_mem_nil, or_false] at hop
  rcases hop with rfl | rfl | rfl | rfl | rfl | rfl <;>
    simp only [holds, hequals, horder, Extended.equals, Op.admits] <;>
    rcases a.compare? b with _ | _ | _ | _ <;> rfl

/-- Where the field has no number no comparison holds. -/
theorem holds_of_no_number (hop : op ∈ Op.comparisons) (ha : v.number? = none)
    (hb : lit.number? = some b) (e : Binary32) : holds op v lit e = false := by
  have hequals : v.equals? lit (.finite 0) = none := by
    rw [Value.equals?_of_number hb, ha, Option.map_none]
  have horder : v.order? lit = none := by rw [Value.order?_of_number hb, ha, Option.bind_none]
  simp only [Op.comparisons, List.mem_cons, List.not_mem_nil, or_false] at hop
  rcases hop with rfl | rfl | rfl | rfl | rfl | rfl <;> simp [holds, hequals, horder]

/-- The clause with this operator between the field and the literal holds of the packet. -/
def Holds (f : Field) (lit : Literal) (eps : Option Binary32) (p : Packet) (op : Op) : Prop :=
  eval ⟨f, op, lit, eps⟩ p = true

/-- The field of the packet is this number, or spells it. -/
def HasNumber (f : Field) (p : Packet) (a : Extended) : Prop :=
  ∃ v, f.resolve p = some v ∧ v.number? = some a

/-- A comparison holds if the field has a number whose order it admits. -/
theorem holds_iff (hb : lit.number? = some b) (hop : op ∈ Op.comparisons) :
    Holds f lit eps p op ↔ ∃ a, HasNumber f p a ∧ op.admits (a.compare? b) = true := by
  rw [Holds, eval]
  cases hv : f.resolve p with
  | none => simp [HasNumber, hv]
  | some v =>
    cases ha : v.number? with
    | none => simp [HasNumber, hv, ha, holds_of_no_number hop ha hb]
    | some a => simp [HasNumber, hv, ha, holds_of_number hop ha hb]

/-- A field that has no number meets no comparison with one. -/
theorem not_holds_of_no_number (hb : lit.number? = some b) (hop : op ∈ Op.comparisons)
    (hf : ∀ a, ¬ HasNumber f p a) : ¬ Holds f lit eps p op := by
  rw [holds_iff hb hop]
  rintro ⟨a, ha, _⟩
  exact hf a ha

/-- A field has at most one number. -/
theorem HasNumber.unique {a a' : Extended} (h : HasNumber f p a) (h' : HasNumber f p a') :
    a = a' := by
  obtain ⟨v, hv, ha⟩ := h
  obtain ⟨v', hv', ha'⟩ := h'
  simp_all

/-- No two operators hold that ask for orders without one in common. -/
theorem not_holds_both {op' : Op} (hb : lit.number? = some b) (hop : op ∈ Op.comparisons)
    (hop' : op' ∈ Op.comparisons) (hd : ∀ o, op.admits o = true → op'.admits o = false) :
    ¬ (Holds f lit eps p op ∧ Holds f lit eps p op') := by
  rw [holds_iff hb hop, holds_iff hb hop']
  rintro ⟨⟨a, ha, h⟩, ⟨a', ha', h'⟩⟩
  obtain rfl := ha.unique ha'
  simp [hd _ h] at h'

/-- An operator that asks for either of two orders holds where one of theirs does. -/
theorem holds_iff_or {op₁ op₂ : Op} (hb : lit.number? = some b) (hop : op ∈ Op.comparisons)
    (hop₁ : op₁ ∈ Op.comparisons) (hop₂ : op₂ ∈ Op.comparisons)
    (hu : ∀ o, op.admits o = (op₁.admits o || op₂.admits o)) :
    Holds f lit eps p op ↔ Holds f lit eps p op₁ ∨ Holds f lit eps p op₂ := by
  simp only [holds_iff hb hop, holds_iff hb hop₁, holds_iff hb hop₂, hu, Bool.or_eq_true,
    and_or_left, exists_or]

/-- Inequality is to be less, or greater, or to have no order at all. -/
theorem neq_iff (hb : lit.number? = some b) : Holds f lit eps p .neq ↔
    Holds f lit eps p .lt ∨ Holds f lit eps p .gt ∨ ∃ a, HasNumber f p a ∧ a.compare? b = none := by
  rw [holds_iff hb (by decide), holds_iff hb (by decide), holds_iff hb (by decide), ← exists_or,
    ← exists_or]
  refine exists_congr fun a => ?_
  rw [← and_or_left, ← and_or_left]
  refine and_congr_right fun _ => ?_
  rcases a.compare? b with _ | _ | _ | _ <;> simp [Op.admits]

/-- The comparisons of a field with a number agree with each other, but that not-a-number is unequal
without being less or greater. -/
theorem coherent_but_for_nan (f : Field) (lit : Literal) (eps : Option Binary32) (p : Packet)
    (hb : lit.number? = some b) :
    ¬ (Holds f lit eps p .lt ∧ Holds f lit eps p .eq) ∧
    ¬ (Holds f lit eps p .lt ∧ Holds f lit eps p .gt) ∧
    ¬ (Holds f lit eps p .eq ∧ Holds f lit eps p .gt) ∧
    (Holds f lit eps p .gte ↔ Holds f lit eps p .gt ∨ Holds f lit eps p .eq) ∧
    (Holds f lit eps p .lte ↔ Holds f lit eps p .lt ∨ Holds f lit eps p .eq) ∧
    (Holds f lit eps p .neq ↔ Holds f lit eps p .lt ∨ Holds f lit eps p .gt ∨
      ∃ a, HasNumber f p a ∧ (a = .nan ∨ b = .nan)) ∧
    ((∀ a, ¬ HasNumber f p a) → ∀ op ∈ Op.comparisons, ¬ Holds f lit eps p op) := by
  refine ⟨?_, ?_, ?_, ?_, ?_, ?_, ?_⟩
  · exact not_holds_both hb (by decide) (by decide) (by decide)
  · exact not_holds_both hb (by decide) (by decide) (by decide)
  · exact not_holds_both hb (by decide) (by decide) (by decide)
  · exact holds_iff_or hb (by decide) (by decide) (by decide) (by decide)
  · exact holds_iff_or hb (by decide) (by decide) (by decide) (by decide)
  · simpa only [Extended.compare?_eq_none_iff] using neq_iff hb
  · exact fun hf op hop => not_holds_of_no_number hb hop hf

/-- The cell of a text packet that has no other. -/
def onlyCell : Field := .table (.index 0) (.absolute 0)

/-- The text packet that says `nan`. -/
def sayingNan : Packet := ⟨.genericText, .table (Table.decode [110, 97, 110])⟩

/-- A cell may spell not-a-number, and is a number then. -/
theorem hasNumber_sayingNan : HasNumber onlyCell sayingNan .nan :=
  ⟨.bytes [110, 97, 110], by cbv, by cbv⟩

/-- The cell that spells not-a-number is unequal to five. -/
theorem coherent_but_for_nan_five : Literal.number? (.u32 5) = some (.ofInt 5) ∧
    Holds onlyCell (.u32 5) none sayingNan .neq :=
  have hneq := (coherent_but_for_nan onlyCell (.u32 5) none sayingNan rfl).2.2.2.2.2.1
  ⟨rfl, hneq.mpr (.inr (.inr ⟨.nan, hasNumber_sayingNan, .inl rfl⟩))⟩

/-- That cell is neither less than five nor greater, and `neq` holds all the same. -/
theorem neq_without_order : Packet.decode .relaxed [2, 0, 0, 0, 110, 97, 110, 0] = .ok sayingNan ∧
    Literal.number? (.u32 5) = some (.ofInt 5) ∧ Holds onlyCell (.u32 5) none sayingNan .neq ∧
    ¬ (Holds onlyCell (.u32 5) none sayingNan .lt ∨
      Holds onlyCell (.u32 5) none sayingNan .gt) := by
  have hb : Literal.number? (.u32 5) = some (.ofInt 5) := rfl
  refine ⟨by cbv, hb, (holds_iff hb (by decide)).mpr ⟨.nan, hasNumber_sayingNan, rfl⟩, ?_⟩
  rintro (h | h) <;>
    · obtain ⟨a, ha, hlt⟩ := (holds_iff hb (by decide)).mp h
      obtain rfl := ha.unique hasNumber_sayingNan
      cases hlt

end Clause

end Intercept
