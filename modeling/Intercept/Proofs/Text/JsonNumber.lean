import Mathlib
import Intercept.Text.JsonNumber

/-!
# Intercept.Proofs.Text.JsonNumber

Integers as JSON text: the decimal digits of an integer that is kept exactly
are read back as that integer, in front of anything that does not go on with
the number.
-/

namespace Intercept

variable {cs rest : List Char} {n : Nat}

/-! ## digits -/

/-- The value of a digit, as it stands among digits. -/
def digitValue (c : Char) : Nat := c.toNat - '0'.toNat

namespace Numeral

/-- A digit is read as its value. -/
theorem digit?_eq (c : Char) : digit? c = if c.isDigit then some (digitValue c) else none := by
  by_cases h : '0' ≤ c ∧ c ≤ '9'
  · have hdigit : c.isDigit = true := by
      simp only [Char.isDigit, Bool.and_eq_true, decide_eq_true_eq]
      exact h
    rw [digit?, if_pos h, if_pos hdigit, digitValue]
  · have hdigit : ¬c.isDigit = true := by
      simp only [Char.isDigit, Bool.and_eq_true, decide_eq_true_eq]
      exact h
    rw [digit?, if_neg h, if_neg hdigit]

/-- Digits are read up to the first character that is none. -/
theorem digits_append (hcs : ∀ c ∈ cs, c.isDigit = true)
    (hrest : ∀ c ∈ rest.head?, c.isDigit = false) :
    digits (cs ++ rest) = (cs.map digitValue, rest) := by
  induction cs with
  | nil =>
    cases rest with
    | nil => rfl
    | cons c rest => simp [digits, digit?_eq, hrest c rfl]
  | cons c cs ih =>
    obtain ⟨hc, hcs⟩ := List.forall_mem_cons.mp hcs
    simp [digits, digit?_eq, hc, ih hcs]

end Numeral

/-- Only zero has the value zero. -/
theorem eq_zero_of_digitValue {c : Char} (hc : c.isDigit = true) (h : digitValue c = 0) :
    c = '0' := by
  have hlow : '0'.toNat ≤ c.toNat := by
    simp only [Char.isDigit, Bool.and_eq_true, decide_eq_true_eq] at hc
    exact UInt32.le_iff_toNat_le.mp hc.1
  have hhigh : c.toNat ≤ '0'.toNat := Nat.sub_eq_zero_iff_le.mp h
  exact Char.toNat_inj.mp (hhigh.antisymm hlow)

/-- Only zero is written with a leading zero. -/
theorem head?_toDigits (hn : n ≠ 0) : (Nat.toDigits 10 n).head? ≠ some '0' := by
  induction n using Nat.strong_induction_on with
  | _ n ih =>
    rw [Nat.toDigits_eq_if (by decide)]
    split
    · simp [hn]
    · next hten =>
      have hless : n / 10 < n := Nat.div_lt_self (by omega) (by decide)
      have hhead := ih (n / 10) hless (by omega)
      rwa [List.head?_append_of_ne_nil _ Nat.toDigits_ne_nil]

namespace JsonNumber

/-- More digits make no smaller number. -/
theorem le_ofDigitChars (cs : List Char) (n : Nat) : n ≤ Nat.ofDigitChars 10 cs n := by
  induction cs generalizing n with
  | nil => simp
  | cons c cs ih =>
    rw [Nat.ofDigitChars_cons]
    have hle := ih (10 * n + (c.toNat - '0'.toNat))
    omega

/-- Digits that fit are all taken. -/
theorem whole_map (h : Nat.ofDigitChars 10 cs n ≤ maxSignificand) :
    whole n (cs.map digitValue) = (Nat.ofDigitChars 10 cs n, 0) := by
  induction cs generalizing n with
  | nil => simp [whole]
  | cons c cs ih =>
    have hnext : n * 10 + digitValue c = 10 * n + (c.toNat - '0'.toNat) := by
      rw [digitValue, Nat.mul_comm]
    rw [Nat.ofDigitChars_cons] at h ⊢
    rw [List.map_cons, whole, hnext, if_pos ((le_ofDigitChars cs _).trans h), ih h]

/-- A text that does not go on with a number in front of it. -/
def Ends (rest : List Char) : Prop :=
  ∀ c ∈ rest.head?, c.isDigit = false ∧ c ≠ '.' ∧ c ≠ 'e' ∧ c ≠ 'E'

/-- Where a number ends there is no exponent. -/
theorem exponent?_of_ends (h : Ends rest) : Numeral.exponent? rest = some (0, rest) := by
  cases rest with
  | nil => rfl
  | cons c rest =>
    obtain ⟨-, -, he, hE⟩ := h c rfl
    simp [Numeral.exponent?, he, hE]

theorem isDigit_toDigits (n : Nat) : ∀ c ∈ Nat.toDigits 10 n, c.isDigit = true :=
  fun _ hc => Nat.isDigit_of_mem_toDigits (by decide) (by decide) hc

/-- The digits of a natural have no needless zero in front. -/
theorem not_padded_toDigits (n : Nat) :
    ¬((Nat.toDigits 10 n).map digitValue = [] ∨
      ((Nat.toDigits 10 n).map digitValue).head? = some 0 ∧
        1 < ((Nat.toDigits 10 n).map digitValue).length) := by
  rintro (hnil | ⟨hhead, hlength⟩)
  · exact Nat.toDigits_ne_nil (List.map_eq_nil_iff.mp hnil)
  · rw [List.head?_map, Option.map_eq_some_iff] at hhead
    obtain ⟨c, hc, hvalue⟩ := hhead
    have hzero : c = '0' :=
      eq_zero_of_digitValue (isDigit_toDigits n c (List.mem_of_head? hc)) hvalue
    have hn : n = 0 := by_contra fun hn => head?_toDigits hn (hzero ▸ hc)
    simp [hn] at hlength

/-- The digits of a number that is kept exactly are read back. -/
theorem unsigned?_toDigits (negative : Bool) (hn : n ≤ maxSignificand)
    (hint : negative = true → n ≠ 0 ∧ n ≤ Nat.pow 2 63) (hrest : Ends rest) :
    unsigned? negative (Nat.toDigits 10 n ++ rest) =
      some (.int (if negative then -(n : Int) else n), rest) := by
  have hdigits := Numeral.digits_append (isDigit_toDigits n) (fun c hc => (hrest c hc).1)
  have hwhole : whole 0 ((Nat.toDigits 10 n).map digitValue) = (n, 0) := by
    rw [whole_map (by simpa using hn), Nat.ofDigitChars_ten_toDigits]
  have hkept : ¬(negative = true ∧ (n = 0 ∨ Nat.pow 2 63 < n)) := by
    rintro ⟨hnegative, h⟩
    have := hint hnegative
    omega
  simp only [unsigned?, hdigits, hwhole, if_neg (not_padded_toDigits n), exponent?_of_ends hrest]
  split
  · exact absurd rfl (hrest '.' rfl).2.1
  · simp [hkept]

/-- Without a minus a number is read as it stands. -/
theorem read?_of_head?_ne (h : cs.head? ≠ some '-') : read? cs = unsigned? false cs := by
  rw [read?]
  rintro others rfl
  exact h rfl

/-- The text of an integer starts with a digit or a minus. -/
theorem exists_toString_eq_cons (i : Int) :
    ∃ c cs, (toString i).toList = c :: cs ∧ (c.isDigit = true ∨ c = '-') := by
  rw [Int.toString_eq_repr, Int.repr_eq_if]
  split
  · obtain ⟨c, cs, hcs⟩ := List.exists_cons_of_ne_nil (Nat.toDigits_ne_nil (n := i.toNat) (b := 10))
    exact ⟨c, cs, by rw [Nat.toList_repr, hcs],
      .inl (isDigit_toDigits _ c (hcs ▸ List.mem_cons_self))⟩
  · exact ⟨'-', _, by rw [String.toList_append]; rfl, .inr rfl⟩

/-- An integer that is kept exactly is read back from its decimal text. -/
theorem read?_toString {i : Int} (hlow : -2 ^ 63 ≤ i) (hhigh : i < 2 ^ 64) (hrest : Ends rest) :
    read? ((toString i).toList ++ rest) = some (.int i, rest) := by
  have hmax : (maxSignificand : Int) = 2 ^ 64 - 1 := rfl
  have hpow : ((Nat.pow 2 63 : Nat) : Int) = 2 ^ 63 := rfl
  rw [Int.toString_eq_repr, Int.repr_eq_if]
  split
  · next hi =>
    have hhead : (Nat.toDigits 10 i.toNat ++ rest).head? ≠ some '-' := by
      rw [List.head?_append_of_ne_nil _ Nat.toDigits_ne_nil]
      intro h
      cases isDigit_toDigits _ _ (List.mem_of_head? h)
    rw [Nat.toList_repr, read?_of_head?_ne hhead,
      unsigned?_toDigits false (by omega) (fun h => by cases h) hrest]
    simp [hi]
  · next hi =>
    have hread := unsigned?_toDigits true (n := (-i).toNat) (by omega) (fun _ => by omega) hrest
    rw [String.toList_append, Nat.toList_repr]
    refine hread.trans ?_
    have hneg : -((-i).toNat : Int) = i := by omega
    rw [if_pos rfl, hneg]

end JsonNumber

end Intercept
