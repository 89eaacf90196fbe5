import Intercept.Bytes

/-!
# Intercept.Interest.Like

Wildcard patterns over bytes: `%` stands for any run of bytes, also none, `_`
for exactly one byte, every other byte for itself.

The matcher walks over text and pattern together and marks the last `%` that
it came by. Where the two part, it goes back to the mark, lets that `%` take
one byte more and tries again. Marks are never stacked: what an earlier `%`
could still take, the last one can take as well.

A walk ends because the pattern behind the mark only gets shorter, under one
mark the text at the mark, and between two visits of the mark the text.
-/

namespace Intercept.Like

/-- `%`, any run of bytes. -/
def run : UInt8 := 37

/-- `_`, any one byte. -/
def any : UInt8 := 95

/-- What was left behind a `%`: the text that it has not taken, and the pattern. -/
structure Mark where
  text : Bytes
  pattern : Bytes

/-- Whether a walk leads from a mark to what is left of text and pattern now: bytes of the pattern
other than `%` took one byte of the text each. -/
def Mark.LeadsTo (m : Mark) (text pattern : Bytes) : Prop :=
  ∃ taken front : Bytes, m.text = taken ++ text ∧ m.pattern = front ++ pattern ∧
    taken.length = front.length ∧ run ∉ front

namespace Mark

variable {m : Mark} {text pattern : Bytes} {b p : UInt8}

theorem leadsTo_self (m : Mark) : m.LeadsTo m.text m.pattern :=
  ⟨[], [], rfl, rfl, rfl, List.not_mem_nil⟩

theorem LeadsTo.next (h : m.LeadsTo (b :: text) (p :: pattern)) (hp : p ≠ run) :
    m.LeadsTo text pattern := by
  obtain ⟨taken, front, htext, hpattern, hlength, hfront⟩ := h
  refine ⟨taken ++ [b], front ++ [p], by simp [htext], by simp [hpattern], by simp [hlength], ?_⟩
  simp [hfront, hp.symm]

/-- A walk has no more text left than its mark. -/
theorem LeadsTo.text_le (h : m.LeadsTo text pattern) : text.length ≤ m.text.length := by
  obtain ⟨taken, front, htext, -⟩ := h
  simp [htext]

theorem LeadsTo.pattern_le (h : m.LeadsTo text pattern) : pattern.length ≤ m.pattern.length := by
  obtain ⟨taken, front, -, hpattern, -⟩ := h
  simp [hpattern]

end Mark

/-- What is left of a text and a pattern, and the last `%` that the walk came by. -/
structure Walk where
  text : Bytes
  pattern : Bytes
  mark : Option Mark
  leads : ∀ m ∈ mark, m.LeadsTo text pattern

namespace Walk

/-- Go back to the mark and let its `%` take one byte more. -/
def resume (w : Walk) : Option Walk :=
  w.mark.map fun m => {
    text := m.text.tail
    pattern := m.pattern
    mark := some ⟨m.text.tail, m.pattern⟩
    leads := fun _ h => Option.some.inj h ▸ Mark.leadsTo_self _ }

/-- Go on by one byte of the pattern: a `%` takes nothing yet and becomes the mark, any other byte
takes one byte of the text if it stands for that byte. Otherwise resume at the mark. -/
def step (w : Walk) : Option Walk :=
  match w with
  | ⟨b :: bs, p :: ps, mark, leads⟩ =>
    if hrun : p = run then
      some ⟨b :: bs, ps, some ⟨b :: bs, ps⟩, fun _ h => Option.some.inj h ▸ Mark.leadsTo_self _⟩
    else if p = any ∨ p = b then some ⟨bs, ps, mark, fun m h => (leads m h).next hrun⟩
    else resume w
  | _ => resume w

/-- How far a walk is from its end: the pattern behind its mark, the text at its mark, the text. -/
def distance (w : Walk) : Nat × Nat × Nat :=
  match w.mark with
  | none => (w.pattern.length, 0, w.text.length)
  | some m => (m.pattern.length, m.text.length, w.text.length)

/-- One walk is nearer to its end than another. -/
abbrev Nearer : Nat × Nat × Nat → Nat × Nat × Nat → Prop :=
  Prod.Lex (· < ·) (Prod.Lex (· < ·) (· < ·))

/-- Going back to the mark takes a byte from what the mark has left. -/
theorem resume_nearer {w w' : Walk} (htext : w.text ≠ []) (h : w.resume = some w') :
    Nearer w'.distance w.distance := by
  obtain ⟨text, pattern, _ | m, leads⟩ := w
  · cases h
  · cases h
    have htail : m.text.tail.length < m.text.length := by
      have hle : text.length ≤ m.text.length := (leads m rfl).text_le
      have hpos : 0 < text.length := List.length_pos_iff.mpr htext
      rw [List.length_tail]
      omega
    exact .right _ (.left _ _ htail)

/-- Every step brings the walk nearer to its end. -/
theorem step_nearer {w w' : Walk} (htext : w.text ≠ []) (h : w.step = some w') :
    Nearer w'.distance w.distance := by
  obtain ⟨_ | ⟨b, bs⟩, _ | ⟨p, ps⟩, mark, leads⟩ := w
  · exact absurd rfl htext
  · exact absurd rfl htext
  · exact resume_nearer htext h
  · rw [step] at h
    split at h
    · -- a new mark has less pattern behind it
      cases h
      cases mark with
      | none => exact .left _ _ (Nat.lt_succ_self _)
      | some m => exact .left _ _ (leads m rfl).pattern_le
    · split at h
      · cases h
        cases mark with
        | none => exact .left _ _ (Nat.lt_succ_self _)
        | some m => exact .right _ (.right _ (Nat.lt_succ_self _))
      · exact resume_nearer htext h

/-- Whether a walk reaches the end of its text with nothing but `%` left of the pattern. -/
def arrives (w : Walk) : Bool :=
  if htext : w.text = [] then w.pattern.all (· = run)
  else match hstep : w.step with
    | none => false
    | some w' =>
      have := step_nearer htext hstep
      w'.arrives
termination_by w.distance
decreasing_by assumption

end Walk

/-- Whether the whole text matches the pattern. -/
def accepts (text pattern : Bytes) : Bool := Walk.arrives ⟨text, pattern, none, nofun⟩

end Intercept.Like
