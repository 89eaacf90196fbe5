import Mathlib
import Intercept.Wire.Table

/-!
# Intercept.Proofs.Wire.Table

Text tables as bytes.

1. Splitting and joining at a separator are `List.splitOn` and
   `List.intercalate`; pieces without the separator are found again, and what
   is joined ends as its last piece does (`getLast?_joinBy`).
2. `Legible` tables are those of which nothing is lost: no line of one is
   empty, and no cell holds a separator. Every decoded table is legible
   (`legible_decode`).
3. A legible table reads back (`Legible.decode_encode`). None of its lines is
   or ends in a newline, so the newline at the end is told apart from the ones
   between the rows, also where there are no rows.
-/

namespace Intercept

/-! ## pieces and separators -/

namespace Bytes

variable {sep x : UInt8} {b piece : Bytes} {pieces : List Bytes}

/-- Splitting at a separator is that of the library. -/
theorem splitBy_eq_splitOn (sep : UInt8) (b : Bytes) : splitBy sep b = List.splitOn sep b := by
  induction b with
  | nil => rfl
  | cons c b ih =>
      rw [splitBy, ih, List.splitOn_cons_eq_if_modifyHead]
      cases h : List.splitOn sep b with
      | nil => exact absurd h (List.splitOn_ne_nil sep b)
      | cons piece pieces => simp [List.modifyHead]

theorem joinBy_eq_intercalate (sep : UInt8) (pieces : List Bytes) :
    joinBy sep pieces = [sep].intercalate pieces := by
  induction pieces with
  | nil => rfl
  | cons piece pieces ih =>
      cases pieces with
      | nil => simp [joinBy]
      | cons next pieces =>
          rw [joinBy, ih, List.intercalate_cons_cons, List.append_cons]
          exact List.cons_ne_nil next pieces

theorem splitBy_ne_nil (sep : UInt8) (b : Bytes) : splitBy sep b ≠ [] := by
  rw [splitBy_eq_splitOn]
  exact List.splitOn_ne_nil sep b

/-- What is split is joined again. -/
theorem joinBy_splitBy (sep : UInt8) (b : Bytes) : joinBy sep (splitBy sep b) = b := by
  rw [splitBy_eq_splitOn, joinBy_eq_intercalate, List.intercalate_splitOn]

/-- Pieces without the separator are found again. -/
theorem splitBy_joinBy (hsep : ∀ piece ∈ pieces, sep ∉ piece) (hne : pieces ≠ []) :
    splitBy sep (joinBy sep pieces) = pieces := by
  rw [splitBy_eq_splitOn, joinBy_eq_intercalate, List.splitOn_intercalate sep hsep hne]

/-- What is in a piece is in the whole, and no separator. -/
theorem mem_of_mem_splitBy (hpiece : piece ∈ splitBy sep b) (hx : x ∈ piece) : x ∈ b ∧ x ≠ sep := by
  induction b generalizing piece with
  | nil => simp_all [splitBy]
  | cons c b ih =>
      rw [splitBy] at hpiece
      cases h : splitBy sep b with
      | nil => exact absurd h (splitBy_ne_nil sep b)
      | cons first pieces =>
          rw [h] at hpiece ih
          by_cases hc : c = sep
          · simp only [if_pos hc, List.mem_cons] at hpiece
            obtain rfl | hpiece := hpiece
            · cases hx
            · have hin := ih (List.mem_cons.mpr hpiece) hx
              exact ⟨List.mem_cons_of_mem c hin.1, hin.2⟩
          · simp only [if_neg hc, List.mem_cons] at hpiece
            obtain rfl | hpiece := hpiece
            · obtain rfl | hx := List.mem_cons.mp hx
              · exact ⟨List.mem_cons_self, hc⟩
              · have hin := ih List.mem_cons_self hx
                exact ⟨List.mem_cons_of_mem c hin.1, hin.2⟩
            · have hin := ih (List.mem_cons_of_mem first hpiece) hx
              exact ⟨List.mem_cons_of_mem c hin.1, hin.2⟩

/-- Every byte of what is joined is a separator or one of a piece. -/
theorem mem_of_mem_joinBy (hx : x ∈ joinBy sep pieces) : x = sep ∨ ∃ piece ∈ pieces, x ∈ piece := by
  induction pieces with
  | nil => cases hx
  | cons piece pieces ih =>
      cases pieces with
      | nil => exact .inr ⟨piece, List.mem_cons_self, hx⟩
      | cons next pieces =>
          rw [joinBy, List.mem_append, List.mem_cons] at hx
          · obtain hx | rfl | hx := hx
            · exact .inr ⟨piece, List.mem_cons_self, hx⟩
            · exact .inl rfl
            · obtain hsep | ⟨piece', hpiece', hx'⟩ := ih hx
              · exact .inl hsep
              · exact .inr ⟨piece', List.mem_cons_of_mem piece hpiece', hx'⟩
          · exact List.cons_ne_nil next pieces

/-- Only nothing and the empty piece are joined to nothing. -/
theorem joinBy_eq_nil_iff : joinBy sep pieces = [] ↔ pieces = [] ∨ pieces = [[]] := by
  cases pieces with
  | nil => simp [joinBy]
  | cons piece pieces =>
      cases pieces with
      | nil => simp [joinBy]
      | cons next pieces => simp [joinBy]

/-- What is joined ends as its last piece does. -/
theorem getLast?_joinBy (hne : ∀ piece ∈ pieces, piece ≠ []) :
    (joinBy sep pieces).getLast? = pieces.getLast?.bind List.getLast? := by
  induction pieces with
  | nil => rfl
  | cons piece pieces ih =>
      cases pieces with
      | nil => rfl
      | cons next pieces =>
          have hrest := ih fun piece h => hne piece (List.mem_cons_of_mem _ h)
          have hjoin : joinBy sep (next :: pieces) ≠ [] := by
            have hnext := hne next (by simp)
            simp [joinBy_eq_nil_iff, hnext]
          rw [joinBy, List.getLast?_append_of_ne_nil _ (List.cons_ne_nil _ _),
            List.getLast?_cons_of_ne_nil hjoin, hrest, List.getLast?_cons_cons]
          exact List.cons_ne_nil next pieces

end Bytes

namespace Table

variable {t : Table} {b : Bytes} {row : Row} {cell : Bytes}

/-! ## tables that read back -/

/-- Nothing in the table is lost between separators. -/
structure Legible (t : Table) : Prop where
  row_ne_nil : ∀ row ∈ t.rows, row ≠ []
  row_ne_blank : ∀ row ∈ t.rows, row ≠ [[]]
  rowSep_not_mem : ∀ row ∈ t.rows, ∀ cell ∈ row, rowSep ∉ cell
  cellSep_not_mem : ∀ row ∈ t.rows, ∀ cell ∈ row, cellSep ∉ cell

/-- Newlines are dropped from the end as long as there are some. -/
theorem stripNewlines_eq_rdropWhile (b : Bytes) : stripNewlines b = b.rdropWhile (· = rowSep) := rfl

theorem stripNewlines_of_getLast? (h : b.getLast? ≠ some rowSep) : stripNewlines b = b := by
  rw [stripNewlines_eq_rdropWhile, List.rdropWhile_eq_self_iff]
  intro hne hlast
  rw [List.getLast?_eq_some_getLast hne] at h
  exact h (congrArg some (of_decide_eq_true hlast))

theorem stripNewlines_concat (b : Bytes) : stripNewlines (b ++ [rowSep]) = stripNewlines b :=
  List.rdropWhile_concat_pos _ _ _ (decide_eq_true rfl)

/-- The rows of a decoded table are the lines of its bytes that are not empty. -/
theorem mem_rows_decode (hrow : row ∈ (decode b).rows) :
    ∃ line : Bytes, line ≠ [] ∧ rowSep ∉ line ∧ row = Bytes.splitBy cellSep line := by
  simp only [decode, reindex, List.mem_map, List.mem_filter, decide_eq_true_eq] at hrow
  obtain ⟨line, ⟨hline, hne⟩, rfl⟩ := hrow
  exact ⟨line, hne, fun hmem => (Bytes.mem_of_mem_splitBy hline hmem).2 rfl, rfl⟩

/-- A table that is read is legible. -/
theorem legible_decode (b : Bytes) : (decode b).Legible where
  row_ne_nil row hrow := by
    obtain ⟨line, -, -, rfl⟩ := mem_rows_decode hrow
    exact Bytes.splitBy_ne_nil cellSep line
  row_ne_blank row hrow hblank := by
    obtain ⟨line, hne, -, rfl⟩ := mem_rows_decode hrow
    exact hne (by rw [← Bytes.joinBy_splitBy cellSep line, hblank]; rfl)
  rowSep_not_mem row hrow cell hcell hmem := by
    obtain ⟨line, -, hline, rfl⟩ := mem_rows_decode hrow
    exact hline (Bytes.mem_of_mem_splitBy hcell hmem).1
  cellSep_not_mem row hrow cell hcell hmem := by
    obtain ⟨line, -, -, rfl⟩ := mem_rows_decode hrow
    exact (Bytes.mem_of_mem_splitBy hcell hmem).2 rfl

namespace Legible

/-- No line of a legible table is empty. -/
theorem line_ne_nil (h : t.Legible) : ∀ line ∈ t.rows.map (Bytes.joinBy cellSep), line ≠ [] := by
  intro line hline
  obtain ⟨row, hrow, rfl⟩ := List.mem_map.mp hline
  rw [ne_eq, Bytes.joinBy_eq_nil_iff]
  exact not_or.mpr ⟨h.row_ne_nil row hrow, h.row_ne_blank row hrow⟩

/-- No line of it has a newline. -/
theorem rowSep_not_mem_line (h : t.Legible) :
    ∀ line ∈ t.rows.map (Bytes.joinBy cellSep), rowSep ∉ line := by
  intro line hline hmem
  obtain ⟨row, hrow, rfl⟩ := List.mem_map.mp hline
  obtain hsep | ⟨cell, hcell, hin⟩ := Bytes.mem_of_mem_joinBy hmem
  · exact absurd hsep (by decide)
  · exact h.rowSep_not_mem row hrow cell hcell hin

/-- The rows do not end in a newline. -/
theorem getLast?_lines_ne (h : t.Legible) :
    (Bytes.joinBy rowSep (t.rows.map (Bytes.joinBy cellSep))).getLast? ≠ some rowSep := by
  rw [Bytes.getLast?_joinBy h.line_ne_nil]
  intro hsep
  obtain ⟨line, hline, hin⟩ := Option.bind_eq_some_iff.mp hsep
  exact h.rowSep_not_mem_line line (List.mem_of_getLast? hline) (List.mem_of_getLast? hin)

/-- The bytes of a legible table are its lines once the newlines at the end are stripped. -/
theorem stripNewlines_encode (h : t.Legible) :
    stripNewlines t.encode = Bytes.joinBy rowSep (t.rows.map (Bytes.joinBy cellSep)) := by
  cases hend : t.trailingNewline with
  | false => simpa [encode, hend] using stripNewlines_of_getLast? h.getLast?_lines_ne
  | true => simp [encode, hend, stripNewlines_concat, stripNewlines_of_getLast? h.getLast?_lines_ne]

/-- Its lines are found again. -/
theorem splitBy_rowSep (h : t.Legible) :
    (Bytes.splitBy rowSep (Bytes.joinBy rowSep (t.rows.map (Bytes.joinBy cellSep)))).filter
      (· ≠ []) =
      t.rows.map (Bytes.joinBy cellSep) := by
  by_cases hnone : t.rows = []
  · simp [hnone, Bytes.joinBy, Bytes.splitBy]
  · rw [Bytes.splitBy_joinBy h.rowSep_not_mem_line (by simpa using hnone), List.filter_eq_self]
    exact fun line hline => decide_eq_true (h.line_ne_nil line hline)

theorem splitBy_cellSep (h : t.Legible) :
    (t.rows.map (Bytes.joinBy cellSep)).map (Bytes.splitBy cellSep) = t.rows := by
  have hrow : ∀ row ∈ t.rows, (Bytes.splitBy cellSep ∘ Bytes.joinBy cellSep) row = id row :=
    fun row hrow => Bytes.splitBy_joinBy (h.cellSep_not_mem row hrow) (h.row_ne_nil row hrow)
  rw [List.map_map, List.map_congr_left hrow, List.map_id]

/-- A legible table reads back, with its key index made anew. -/
theorem decode_encode (h : t.Legible) : decode t.encode = t.reindex := by
  have hend : decide ((stripNewlines t.encode).length ≠ t.encode.length) = t.trailingNewline := by
    rw [h.stripNewlines_encode, encode]
    cases t.trailingNewline <;> simp
  simp only [decode, hend]
  rw [h.stripNewlines_encode, h.splitBy_rowSep, h.splitBy_cellSep]
  rfl

end Legible

end Table

end Intercept
