import Mathlib
import Intercept.Proofs.Wire.Table

/-!
# Intercept.Proofs.Wire.Lossless

Of which tables and of which texts nothing is lost.

```
t  --encode-->  t.encode  --decode-->  a legible table
b  --decode-->  decode b  --encode-->  no empty line, at most one newline at the end
```

1. Only legible tables are read, so a table that agrees with what its bytes are
   read as is legible.
2. Where no two separators stand side by side (`Spaced`), only the first and the
   last piece between them can be empty (`Bytes.splitBy_of_spaced`).
3. The bytes of a legible table are spaced, and begin with a newline only if
   they are one (`Legible.spaced_encode`, `Legible.encode_of_head?`). A text of
   that form has no empty line to skip and no second newline to strip, so it is
   written as it was (`encode_decode_of_spaced`).
-/

namespace Intercept

namespace Bytes

variable {sep : UInt8} {b : Bytes} {pieces : List Bytes}

/-! ## separators side by side -/

/-- No two separators stand side by side. -/
def Spaced (sep : UInt8) (b : Bytes) : Prop := b.IsChain fun x y => ¬(x = sep ∧ y = sep)

/-- Bytes are spaced if two separators occur nowhere in them. -/
theorem spaced_iff : Spaced sep b ↔ ¬[sep, sep] <:+: b := by
  rw [Spaced, List.isChain_iff_forall_rel_of_append_cons_cons]
  constructor
  · rintro h ⟨front, back, rfl⟩
    exact h (List.append_assoc front [sep, sep] back) ⟨rfl, rfl⟩
  · rintro h x y front back rfl ⟨rfl, rfl⟩
    exact h ⟨front, back, by simp⟩

/-- They are so without a separator. -/
theorem spaced_of_not_mem (h : sep ∉ b) : Spaced sep b :=
  spaced_iff.mpr fun hin => h (hin.subset List.mem_cons_self)

/-- What is joined begins as its first piece does. -/
theorem head?_joinBy (hne : ∀ piece ∈ pieces, piece ≠ []) :
    (joinBy sep pieces).head? = pieces.head?.bind List.head? := by
  match pieces with
  | [] => rfl
  | [piece] => rfl
  | piece :: next :: pieces =>
      have hpiece := hne piece List.mem_cons_self
      rw [joinBy, List.head?_append_of_ne_nil _ hpiece]
      · rfl
      · exact List.cons_ne_nil next pieces

/-- What is joined begins with no separator if no piece is empty or has one. -/
theorem head?_joinBy_ne (hsep : ∀ piece ∈ pieces, sep ∉ piece)
    (hne : ∀ piece ∈ pieces, piece ≠ []) : (joinBy sep pieces).head? ≠ some sep := by
  rw [head?_joinBy hne]
  intro hhead
  obtain ⟨piece, hpiece, hin⟩ := Option.bind_eq_some_iff.mp hhead
  exact hsep piece (List.mem_of_mem_head? hpiece) (List.mem_of_mem_head? hin)

/-- Nor do two of them stand side by side in it. -/
theorem spaced_joinBy (hsep : ∀ piece ∈ pieces, sep ∉ piece) (hne : ∀ piece ∈ pieces, piece ≠ []) :
    Spaced sep (joinBy sep pieces) := by
  induction pieces with
  | nil => exact List.isChain_nil
  | cons piece pieces ih =>
      obtain ⟨hpiece, hpieces⟩ := List.forall_mem_cons.mp hsep
      obtain ⟨-, hrest⟩ := List.forall_mem_cons.mp hne
      cases pieces with
      | nil => exact spaced_of_not_mem hpiece
      | cons next pieces =>
          rw [joinBy]
          · refine (spaced_of_not_mem hpiece).append (List.isChain_cons.mpr ⟨?_,
              ih hpieces hrest⟩) ?_
            · rintro y hy ⟨-, rfl⟩
              exact head?_joinBy_ne hpieces hrest hy
            · rintro x hx - - ⟨rfl, -⟩
              exact hpiece (List.mem_of_getLast? hx)
          · exact List.cons_ne_nil next pieces

/-- Between separators that do not stand side by side and not at the end, only the first piece can
be empty. -/
theorem splitBy_of_spaced (h : Spaced sep b) (hlast : b.getLast? ≠ some sep) :
    ∃ first others, splitBy sep b = first :: others ∧ (∀ piece ∈ others, piece ≠ []) ∧
      (first = [] → b = [] ∨ b.head? = some sep) := by
  induction b with
  | nil => exact ⟨[], [], rfl, List.forall_mem_nil _, fun _ => .inl rfl⟩
  | cons c b ih =>
      obtain ⟨hnext, hb⟩ := List.isChain_cons.mp h
      have hend : b.getLast? ≠ some sep := fun hsep => hlast (by rw [List.getLast?_cons, hsep]; rfl)
      obtain ⟨first, others, hsplit, hothers, hfirst⟩ := ih hb hend
      by_cases hc : c = sep
      · refine ⟨[], first :: others, by simp [splitBy, hsplit, hc], ?_,
          fun _ => .inr (by simp [hc])⟩
        refine List.forall_mem_cons.mpr ⟨fun hempty => ?_, hothers⟩
        obtain rfl | hhead := hfirst hempty
        · exact hlast (congrArg some hc)
        · exact hnext sep hhead ⟨hc, rfl⟩
      · exact ⟨c :: first, others, by simp [splitBy, hsplit, hc], hothers,
          fun hempty => absurd hempty (List.cons_ne_nil c first)⟩

/-- Where separators stand neither side by side nor at an end, there is no empty piece to leave
out. -/
theorem joinBy_filter_splitBy (h : Spaced sep b) (hhead : b.head? ≠ some sep)
    (hlast : b.getLast? ≠ some sep) : joinBy sep ((splitBy sep b).filter (· ≠ [])) = b := by
  by_cases hne : b = []
  · subst hne
    rfl
  · obtain ⟨first, others, hsplit, hothers, hfirst⟩ := splitBy_of_spaced h hlast
    have hall : ∀ piece ∈ splitBy sep b, piece ≠ [] := by
      rw [hsplit]
      exact List.forall_mem_cons.mpr ⟨fun hempty => (hfirst hempty).elim hne hhead, hothers⟩
    rw [List.filter_eq_self.mpr fun piece hpiece => decide_eq_true (hall piece hpiece),
      joinBy_splitBy]

end Bytes

namespace Table

variable {t : Table} {b body : Bytes}

/-! ## tables -/

theorem legible_iff : t.Legible ↔ ∀ row ∈ t.rows, row ≠ [] ∧ row ≠ [[]] ∧
    ∀ cell ∈ row, cellSep ∉ cell ∧ rowSep ∉ cell := by
  constructor
  · intro h row hrow
    exact ⟨h.row_ne_nil row hrow, h.row_ne_blank row hrow, fun cell hcell =>
      ⟨h.cellSep_not_mem row hrow cell hcell, h.rowSep_not_mem row hrow cell hcell⟩⟩
  · intro h
    exact {
      row_ne_nil := fun row hrow => (h row hrow).1
      row_ne_blank := fun row hrow => (h row hrow).2.1
      rowSep_not_mem := fun row hrow cell hcell => ((h row hrow).2.2 cell hcell).2
      cellSep_not_mem := fun row hrow cell hcell => ((h row hrow).2.2 cell hcell).1 }

/-- A table reads back just if it is legible: nothing else is ever read. -/
theorem agrees_decode_encode_iff : (decode t.encode).agrees t = true ↔ t.Legible := by
  rw [agrees_iff]
  constructor
  · rintro ⟨hrows, -⟩
    have hread := legible_iff.mp (legible_decode t.encode)
    exact legible_iff.mpr (hrows ▸ hread)
  · intro h
    rw [h.decode_encode]
    exact ⟨rfl, rfl⟩

/-- A table that is read is indexed already. -/
theorem reindex_decode (b : Bytes) : (decode b).reindex = decode b := rfl

/-! ## texts -/

/-- The bytes of a legible table have no empty line. -/
theorem Legible.spaced_encode (h : t.Legible) : Bytes.Spaced rowSep t.encode := by
  have hlines := Bytes.spaced_joinBy h.rowSep_not_mem_line h.line_ne_nil
  rw [encode]
  cases t.trailingNewline with
  | false => simpa using hlines
  | true =>
      refine hlines.append (List.isChain_singleton rowSep) ?_
      rintro x hx - - ⟨rfl, -⟩
      exact h.getLast?_lines_ne hx

/-- They begin with a newline only where there is no row. -/
theorem Legible.encode_of_head? (h : t.Legible) (hhead : t.encode.head? = some rowSep) :
    t.encode = [rowSep] := by
  have hlines := Bytes.head?_joinBy_ne h.rowSep_not_mem_line h.line_ne_nil
  rw [encode] at hhead ⊢
  cases hjoin : Bytes.joinBy rowSep (t.rows.map (Bytes.joinBy cellSep)) with
  | nil =>
      cases hend : t.trailingNewline with
      | false => simp [hjoin, hend] at hhead
      | true => rfl
  | cons c rest =>
      rw [hjoin, List.cons_append, List.head?_cons] at hhead
      rw [hjoin, List.head?_cons] at hlines
      exact absurd hhead hlines

/-- The lines that are written are those that were read and not empty. -/
theorem encode_decode (b : Bytes) : (decode b).encode =
    Bytes.joinBy rowSep ((Bytes.splitBy rowSep (stripNewlines b)).filter (· ≠ [])) ++
      if (stripNewlines b).length ≠ b.length then [rowSep] else [] := by
  have hjoin : Bytes.joinBy cellSep ∘ Bytes.splitBy cellSep = id :=
    funext (Bytes.joinBy_splitBy cellSep)
  simp only [encode, decode, reindex, List.map_map, hjoin, List.map_id]
  simp

/-- Of newlines that do not stand side by side at most one is stripped. -/
theorem eq_stripNewlines_of_spaced (h : Bytes.Spaced rowSep b) :
    (stripNewlines b).getLast? ≠ some rowSep ∧
      b = stripNewlines b ++ if (stripNewlines b).length ≠ b.length then [rowSep] else [] := by
  by_cases hlast : b.getLast? = some rowSep
  · obtain ⟨front, rfl⟩ := List.getLast?_eq_some_iff.mp hlast
    have hfront : front.getLast? ≠ some rowSep := fun hsep =>
      (List.isChain_append.mp h).2.2 rowSep hsep rowSep rfl ⟨rfl, rfl⟩
    rw [stripNewlines_concat, stripNewlines_of_getLast? hfront]
    exact ⟨hfront, by simp⟩
  · rw [stripNewlines_of_getLast? hlast]
    exact ⟨hlast, by simp⟩

/-- Spaced bytes that do not begin with a newline are written as they were read. -/
theorem encode_decode_of_spaced (h : Bytes.Spaced rowSep b) (hhead : b.head? ≠ some rowSep) :
    (decode b).encode = b := by
  obtain ⟨hlast, hb⟩ := eq_stripNewlines_of_spaced h
  have hbody : Bytes.Spaced rowSep (stripNewlines b) := by
    rw [hb] at h
    exact h.left_of_append
  have hfirst : (stripNewlines b).head? ≠ some rowSep := fun hsep =>
    hhead (by rw [hb, List.head?_append, hsep]; rfl)
  rw [encode_decode, Bytes.joinBy_filter_splitBy hbody hfirst hlast, ← hb]

/-- A text is written as it was just if it has no empty line, at its front included, unless it is
one newline. -/
theorem encode_decode_eq_iff : (decode b).encode = b ↔
    Bytes.Spaced rowSep b ∧ (b.head? ≠ some rowSep ∨ b = [rowSep]) := by
  constructor
  · intro h
    have hspaced := (legible_decode b).spaced_encode
    have hhead := (legible_decode b).encode_of_head?
    rw [h] at hspaced hhead
    exact ⟨hspaced, Classical.or_iff_not_imp_left.mpr fun hsep => hhead (not_not.mp hsep)⟩
  · rintro ⟨hspaced, hhead | rfl⟩
    · exact encode_decode_of_spaced hspaced hhead
    · rfl

/-! ## both ways -/

/-- A table reads back as it is just if each of its rows has a cell and is no single empty one, and
no cell holds a separator. Every text is read as a table that reads back, and is written again byte
for byte just if it has no two newlines in a row and begins with none, unless it is one newline. -/
theorem lossless_iff :
    (∀ t : Table, (decode t.encode).agrees t = true ↔ ∀ row ∈ t.rows, row ≠ [] ∧ row ≠ [[]] ∧
      ∀ cell ∈ row, cellSep ∉ cell ∧ rowSep ∉ cell) ∧
    ∀ b : Bytes, decode (decode b).encode = decode b ∧
      ((decode b).encode = b ↔
        ¬[rowSep, rowSep] <:+: b ∧ (b.head? ≠ some rowSep ∨ b = [rowSep])) := by
  refine ⟨fun t => agrees_decode_encode_iff.trans legible_iff, fun b => ⟨?_, ?_⟩⟩
  · rw [(legible_decode b).decode_encode, reindex_decode]
  · rw [encode_decode_eq_iff, Bytes.spaced_iff]

end Table

end Intercept
