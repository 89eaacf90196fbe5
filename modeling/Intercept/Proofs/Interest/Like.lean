import Mathlib
import Intercept.Interest.Like

/-!
# Intercept.Proofs.Interest.Like

Which texts a wildcard pattern accepts.

1. A text `Matches` a pattern if it can be cut into pieces, one for each byte
   of the pattern and in its order, that these bytes stand for.
2. A walk is `Promising` if what is left of its text matches what is left of
   its pattern, or would if the `%` at its mark took some bytes more. A step
   keeps a walk promising and makes no other walk so (`promising_iff_step`).
3. An earlier `%` never has to be gone back to: when a walk comes by the next
   one, whatever the earlier could still take this one can take instead
   (`LeadsTo.later`).
-/

namespace Intercept.Like

variable {text rest front pattern ps piece bs : Bytes} {b p : UInt8}

/-! ## matching -/

/-- The pieces of text that a byte of a pattern stands for. -/
def StandsFor (p : UInt8) (piece : Bytes) : Prop :=
  if p = run then True else if p = any then ∃ b, piece = [b] else piece = [p]

/-- The text can be cut into consecutive pieces that the bytes of the pattern stand for in order. -/
def Matches (pattern text : Bytes) : Prop :=
  ∃ pieces : List Bytes, List.Forall₂ StandsFor pattern pieces ∧ pieces.flatten = text

theorem matches_nil_iff : Matches [] text ↔ text = [] := by
  simp [Matches, eq_comm]

/-- A text matches if its first piece is one that the first byte stands for, and the rest
matches. -/
theorem matches_cons_iff :
    Matches (p :: ps) text ↔ ∃ piece rest, StandsFor p piece ∧ Matches ps rest ∧
      piece ++ rest = text := by
  constructor
  · rintro ⟨pieces, hpieces, rfl⟩
    obtain ⟨piece, others, hpiece, hothers, rfl⟩ := List.forall₂_cons_left_iff.mp hpieces
    exact ⟨piece, others.flatten, hpiece, ⟨others, hothers, rfl⟩, rfl⟩
  · rintro ⟨piece, rest, hpiece, ⟨others, hothers, rfl⟩, rfl⟩
    exact ⟨piece :: others, .cons hpiece hothers, rfl⟩

/-- A `%` can take any number of bytes. -/
theorem matches_run_iff : Matches (run :: ps) text ↔ ∃ k, Matches ps (text.drop k) := by
  rw [matches_cons_iff]
  constructor
  · rintro ⟨piece, rest, -, hrest, rfl⟩
    exact ⟨piece.length, by rwa [List.drop_left]⟩
  · rintro ⟨k, hk⟩
    exact ⟨text.take k, text.drop k, by simp [StandsFor], hk, List.take_append_drop k text⟩

/-- Any byte but `%` stands for one byte: `_` for any, the others for themselves. -/
theorem standsFor_iff (hp : p ≠ run) :
    StandsFor p piece ↔ ∃ b, (p = any ∨ p = b) ∧ piece = [b] := by
  rw [StandsFor, if_neg hp]
  by_cases hany : p = any <;> simp [hany]

/-- Any other byte takes exactly one. -/
theorem matches_byte_iff (hp : p ≠ run) :
    Matches (p :: ps) text ↔ ∃ b bs, text = b :: bs ∧ (p = any ∨ p = b) ∧ Matches ps bs := by
  simp only [matches_cons_iff, standsFor_iff hp]
  constructor
  · rintro ⟨-, bs, ⟨b, hb, rfl⟩, hbs, rfl⟩
    exact ⟨b, bs, rfl, hb, hbs⟩
  · rintro ⟨b, bs, rfl, hb, hbs⟩
    exact ⟨[b], bs, ⟨b, hb, rfl⟩, hbs, rfl⟩

/-- What a `%` takes can be more. -/
theorem matches_of_drop {k : Nat} (h : Matches (run :: ps) (text.drop k)) :
    Matches (run :: ps) text := by
  obtain ⟨j, hj⟩ := matches_run_iff.mp h
  exact matches_run_iff.mpr ⟨k + j, by rwa [← List.drop_drop]⟩

/-- A front without `%` takes as many bytes as it has itself. -/
theorem matches_drop_length (hfront : run ∉ front) (h : Matches (front ++ ps) text) :
    Matches ps (text.drop front.length) := by
  induction front generalizing text with
  | nil => exact h
  | cons p front ih =>
    rw [List.mem_cons, not_or] at hfront
    obtain ⟨hp, hfront⟩ := hfront
    obtain ⟨b, bs, rfl, -, hbs⟩ := (matches_byte_iff (Ne.symm hp)).mp h
    exact ih hfront hbs

/-- The empty text matches a pattern that has nothing but `%`. -/
theorem matches_empty_iff : Matches pattern [] ↔ ∀ p ∈ pattern, p = run := by
  induction pattern with
  | nil => simp [matches_nil_iff]
  | cons p ps ih =>
    by_cases hp : p = run
    · simp [hp, matches_run_iff, ih]
    · simp [hp, matches_byte_iff]

/-! ## walking -/

/-- What the mark's `%` could take more, it leaves to the place that the walk has come to. -/
theorem Mark.LeadsTo.later {m : Mark} {k : Nat} (h : m.LeadsTo text pattern)
    (hm : Matches m.pattern (m.text.drop k)) : Matches pattern (text.drop k) := by
  obtain ⟨taken, front, htext, hpattern, hlength, hfront⟩ := h
  have hdrop : (m.text.drop k).drop front.length = text.drop k := by
    rw [List.drop_drop, Nat.add_comm, ← List.drop_drop, htext, ← hlength, List.drop_left]
  rw [hpattern] at hm
  exact hdrop ▸ matches_drop_length hfront hm

namespace Walk

/-- What is left matches, or it would if the `%` at the mark took at least one byte more. -/
def Promising (w : Walk) : Prop :=
  Matches w.pattern w.text ∨ ∃ m ∈ w.mark, ∃ k, Matches m.pattern (m.text.drop (k + 1))

/-- The place at a mark is promising if its `%` can take any number of bytes more. -/
theorem promising_mark_iff {leads} :
    Promising ⟨text, pattern, some ⟨text, pattern⟩, leads⟩ ↔
      ∃ k, Matches pattern (text.drop k) := by
  constructor
  · rintro (h | ⟨m, hm, k, hk⟩)
    · exact ⟨0, h⟩
    · cases hm
      exact ⟨k + 1, hk⟩
  · rintro ⟨_ | k, hk⟩
    · exact .inl hk
    · exact .inr ⟨_, rfl, k, hk⟩

/-- A walk that has gone wrong is promising if it is so from its mark on. -/
theorem promising_iff_resume {w : Walk} (h : ¬Matches w.pattern w.text) :
    w.Promising ↔ ∃ w' ∈ w.resume, w'.Promising := by
  obtain ⟨text, pattern, _ | m, leads⟩ := w
  · simp [Promising, resume, h]
  · simp only [resume, Option.map_some, Option.mem_def, Option.some.injEq, exists_eq_left',
      promising_mark_iff, List.drop_tail]
    simp only [Promising, h, false_or, Option.mem_def, Option.some.injEq, exists_eq_left']

/-- A step keeps a walk promising and makes no other walk so. -/
theorem promising_iff_step {w : Walk} (htext : w.text ≠ []) :
    w.Promising ↔ ∃ w' ∈ w.step, w'.Promising := by
  obtain ⟨_ | ⟨b, bs⟩, _ | ⟨p, ps⟩, mark, leads⟩ := w
  · exact absurd rfl htext
  · exact absurd rfl htext
  · exact promising_iff_resume (by simp [matches_nil_iff])
  · rw [step]
    split
    · next hp =>
      subst hp
      simp only [Option.mem_def, Option.some.injEq, exists_eq_left', promising_mark_iff,
        ← matches_run_iff]
      constructor
      · rintro (h | ⟨m, hm, k, hk⟩)
        · exact h
        · exact matches_of_drop ((leads m hm).later hk)
      · exact .inl
    · next hp =>
      split
      · next hb => simp [Promising, matches_byte_iff hp, hb]
      · next hb => exact promising_iff_resume (by simp [matches_byte_iff hp, hb])

/-- At the end of the text only `%` can still match, and the mark has nothing more to take. -/
theorem promising_iff_of_text_eq_nil {w : Walk} (htext : w.text = []) :
    w.Promising ↔ ∀ p ∈ w.pattern, p = run := by
  rw [Promising, htext, ← matches_empty_iff, or_iff_left_of_imp]
  rintro ⟨m, hm, k, hk⟩
  have hlater := (w.leads m hm).later hk
  rwa [htext, List.drop_nil] at hlater

/-- A walk arrives if and only if it is promising. -/
theorem arrives_iff_promising (w : Walk) : w.arrives = true ↔ w.Promising := by
  induction w using arrives.induct with
  | case1 w htext =>
    rw [arrives, dif_pos htext, promising_iff_of_text_eq_nil htext, List.all_eq_true]
    simp only [decide_eq_true_eq]
  | case2 w htext hstep =>
    rw [arrives, dif_neg htext, promising_iff_step htext]
    split <;> simp_all
  | case3 w htext w' hstep hnearer ih =>
    rw [arrives, dif_neg htext, promising_iff_step htext]
    split <;> simp_all

end Walk

/-- A text is accepted if and only if it can be cut into consecutive pieces that the bytes of the
pattern stand for, in order. -/
theorem accepts_iff_matches (text pattern : Bytes) :
    accepts text pattern = true ↔ Matches pattern text := by
  rw [accepts, Walk.arrives_iff_promising, Walk.Promising, or_iff_left]
  rintro ⟨m, hm, -⟩
  cases hm

/-- Behind the first `%` the first `iss` will do, though `ppi` stands only behind the second. -/
example : accepts (Bytes.ofText "mississippi") (Bytes.ofText "%iss%ppi") = true := by cbv

end Intercept.Like
