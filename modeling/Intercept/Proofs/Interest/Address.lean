import Mathlib
import Intercept.Interest.Clause
import Intercept.Proofs.Wire.Keys
import Intercept.Proofs.Wire.Table
import Intercept.Proofs.Wire.Verdict

/-!
# Intercept.Proofs.Interest.Address

What a row selector and a column selector address in a text table.

```
Table.gridOf body        the lines of the body that are not empty, cell by cell
Row.cellAt rows r c      the cell in row r and column c, if there is one
row.Chooses rows r base  the selector chooses row r, and relative columns count from base
col.Reaches base c       the selector leads from base to column c
```

1. The index of a decoded table has the last row of a key (`chooses_key`), and
   the scan for a value stops at the first cell in reading order
   (`find_eq_some_iff`).
2. A relative column is a sum of integers; it leads nowhere if it is negative
   or does not fit into a word.
3. A field of a decoded packet has the cell so addressed for its value, and
   none if there is no such cell (`resolve_table_iff`).
-/

namespace Intercept

variable {rows : List Row} {value : Bytes} {r c base : Nat}

/-! ## Rows and cells -/

/-- The cell in a row and a column. -/
def Row.cellAt (rows : List Row) (r c : Nat) : Option Bytes := rows[r]?.bind (·[c]?)

namespace Table

variable {t : Table} {b : Bytes}

/-- The lines of a body that are not empty, cell by cell. -/
def gridOf (body : Bytes) : List Row :=
  ((body.splitOn rowSep).filter (· ≠ [])).map (·.splitOn cellSep)

/-- Newlines at the end only make for empty lines. -/
theorem filter_splitOn_stripNewlines (b : Bytes) :
    ((stripNewlines b).splitOn rowSep).filter (· ≠ []) = (b.splitOn rowSep).filter (· ≠ []) := by
  induction b using List.reverseRecOn with
  | nil => rfl
  | append_singleton b x ih =>
    by_cases hx : x = rowSep
    · rw [hx, stripNewlines_concat, ih, List.splitOn_append_cons_self, List.filter_append]
      simp
    · rw [stripNewlines_of_getLast? (by simpa using hx)]

/-- A text is read as its grid. -/
theorem rows_decode (b : Bytes) : (decode b).rows = gridOf b := by
  have hsplit : Bytes.splitBy cellSep = (·.splitOn cellSep) :=
    funext (Bytes.splitBy_eq_splitOn cellSep)
  rw [decode, reindex, gridOf, Bytes.splitBy_eq_splitOn, filter_splitOn_stripNewlines, hsplit]

/-- The key of a row is its first cell. -/
theorem keyAt_eq_cellAt (t : Table) (j : Nat) : t.keyAt j = Row.cellAt t.rows j 0 := by
  simp only [keyAt, Row.cellAt, List.head?_eq_getElem?]

/-! ## The first cell with a value -/

/-- The cell is the first one with this value, row by row. -/
def IsFirst (rows : List Row) (value : Bytes) (r c : Nat) : Prop :=
  Row.cellAt rows r c = some value ∧
    ∀ r' c', Row.cellAt rows r' c' = some value → r < r' ∨ r = r' ∧ c ≤ c'

/-- Only one cell is the first with a value. -/
theorem IsFirst.unique {r' c' : Nat} (h : IsFirst rows value r c) (h' : IsFirst rows value r' c') :
    r = r' ∧ c = c' := by
  have hle := h.2 r' c' h'.1
  have hge := h'.2 r c h.1
  omega

/-- The first cell of a row that has the value is the first one of all from that row on. -/
theorem isFirst_of_findIdx? {row : Row} (h : row.findIdx? (· = value) = some c) :
    IsFirst (row :: rows) value 0 c := by
  obtain ⟨hc, hvalue, hbefore⟩ := List.findIdx?_eq_some_iff_getElem.mp h
  refine ⟨List.getElem?_eq_some_iff.mpr ⟨hc, of_decide_eq_true hvalue⟩, fun r' c' hcell => ?_⟩
  cases r' with
  | succ r' => exact .inl (Nat.succ_pos r')
  | zero =>
    obtain ⟨hc', hvalue'⟩ := List.getElem?_eq_some_iff.mp hcell
    exact .inr ⟨rfl, Nat.le_of_not_lt fun hlt => hbefore c' hlt (decide_eq_true hvalue')⟩

/-- A row without the value comes before the first cell with it. -/
theorem IsFirst.cons {row : Row} (hrow : value ∉ row) (h : IsFirst rows value r c) :
    IsFirst (row :: rows) value (r + 1) c := by
  refine ⟨h.1, fun r' c' hcell => ?_⟩
  cases r' with
  | zero => exact absurd (List.mem_of_getElem? hcell) hrow
  | succ r' =>
    have hle := h.2 r' c' hcell
    omega

/-- What the scan finds from a row on is the first cell from there. -/
theorem isFirst_of_findFrom {i : Nat} (h : findFrom value i rows = some (r, c)) :
    ∃ k, r = i + k ∧ IsFirst rows value k c := by
  induction rows generalizing i with
  | nil => cases h
  | cons row rows ih =>
    cases hrow : row.findIdx? (· = value) with
    | some col =>
      simp only [findFrom, hrow, Option.some.injEq, Prod.mk.injEq] at h
      obtain ⟨rfl, rfl⟩ := h
      exact ⟨0, rfl, isFirst_of_findIdx? hrow⟩
    | none =>
      simp only [findFrom, hrow] at h
      obtain ⟨k, rfl, hk⟩ := ih h
      have hmem : value ∉ row :=
        fun hin => by simpa using List.findIdx?_eq_none_iff.mp hrow value hin
      exact ⟨k + 1, by omega, hk.cons hmem⟩

/-- The scan goes on as long as there is no cell with the value. -/
theorem cellAt_ne_of_findFrom {i : Nat} (h : findFrom value i rows = none) :
    ∀ r c, Row.cellAt rows r c ≠ some value := by
  induction rows generalizing i with
  | nil => simp [Row.cellAt]
  | cons row rows ih =>
    cases hrow : row.findIdx? (· = value) with
    | some col => simp [findFrom, hrow] at h
    | none =>
      simp only [findFrom, hrow] at h
      intro r c hcell
      cases r with
      | zero => simpa using List.findIdx?_eq_none_iff.mp hrow value (List.mem_of_getElem? hcell)
      | succ r => exact ih h r c hcell

/-- The scan finds the first cell with a value, and only that. -/
theorem find_eq_some_iff : t.find value = some (r, c) ↔ IsFirst t.rows value r c := by
  have hfound : ∀ r c, t.find value = some (r, c) → IsFirst t.rows value r c := by
    intro r c h
    obtain ⟨k, hk, hfirst⟩ := isFirst_of_findFrom h
    rw [Nat.zero_add] at hk
    rwa [hk]
  refine ⟨hfound r c, fun hfirst => ?_⟩
  cases h : t.find value with
  | none => exact absurd hfirst.1 (cellAt_ne_of_findFrom h r c)
  | some rc =>
    obtain ⟨rfl, rfl⟩ := hfirst.unique (hfound rc.1 rc.2 h)
    rfl

end Table

/-! ## Selectors -/

/-- The selector chooses a row, and the column from which relative ones count: the last row with the
key, the row of the first cell with the text and that cell, or the row with the number. -/
def RowSelector.Chooses (rows : List Row) : RowSelector → Nat → Nat → Prop
  | .key k, r, base => IsGreatest {j | Row.cellAt rows j 0 = some (Bytes.ofText k)} r ∧ base = 0
  | .keyAny k, r, base => Table.IsFirst rows (Bytes.ofText k) r base
  | .index i, r, base => r = i ∧ base = 0

/-- The selector leads from a column to a column whose number fits into a word. -/
def ColSelector.Reaches : ColSelector → Nat → Nat → Prop
  | .absolute c', _, c => c = c'
  | .relative offset, base, c => (c : Int) = base + offset ∧ c < UInt64.size

namespace Table

variable {t : Table} {b : Bytes} {row : RowSelector} {col : ColSelector} {cell : Bytes}

/-- Rows are chosen as the selector says if the index has the last row of every key. -/
theorem select_eq_some_iff (ht : ∀ key, t.Exact key) :
    t.select row = some (r, base) ↔ row.Chooses t.rows r base := by
  cases row with
  | key k =>
    have hkey := (ht (Bytes.ofText k)).1 r
    simp only [keyAt_eq_cellAt] at hkey
    simp only [select, RowSelector.Chooses, Option.map_eq_some_iff, Prod.mk.injEq, ← hkey]
    grind
  | keyAny k => exact find_eq_some_iff
  | index i => simp [select, RowSelector.Chooses, eq_comm]

/-- A relative column is the sum, if that is one that a word can say. -/
theorem shiftColumn_eq_some_iff {offset : Int} :
    shiftColumn base offset = some c ↔ (c : Int) = base + offset ∧ c < UInt64.size := by
  simp only [shiftColumn, Option.ite_none_right_eq_some, Option.some.injEq]
  omega

/-- A cell is addressed if it exists in the row that is chosen and the column that is reached. -/
theorem cell?_eq_some_iff (ht : ∀ key, t.Exact key) : t.cell? row col = some cell ↔
    ∃ r base c, row.Chooses t.rows r base ∧ col.Reaches base c ∧
      Row.cellAt t.rows r c = some cell := by
  have hcell : ∀ r c, (t.row r).bind (·[c]?) = Row.cellAt t.rows r c := fun _ _ => rfl
  cases col with
  | absolute c =>
    simp [cell?, Option.bind_eq_some_iff, hcell, select_eq_some_iff ht, ColSelector.Reaches]
  | relative offset =>
    simp [cell?, Option.bind_eq_some_iff, hcell, select_eq_some_iff ht, shiftColumn_eq_some_iff,
      ColSelector.Reaches]

/-- The index of a table that is read knows every key. -/
theorem exact_decode (b : Bytes) (key : Bytes) : (decode b).Exact key :=
  (Grown.decode b).keyed.exact_iff.mpr (List.forall_mem_nil _)

end Table

/-! ## Fields -/

/-- A selector chooses one row at most. -/
theorem RowSelector.Chooses.unique {row : RowSelector} {r' base' : Nat}
    (h : row.Chooses rows r base) (h' : row.Chooses rows r' base') : r = r' ∧ base = base' := by
  cases row with
  | key k => exact ⟨h.1.unique h'.1, h.2.trans h'.2.symm⟩
  | keyAny k => exact Table.IsFirst.unique h h'
  | index i => exact ⟨h.1.trans h'.1.symm, h.2.trans h'.2.symm⟩

namespace Packet

variable {mode : DecodeMode} {b : Bytes} {p : Packet}

/-- A packet that is read carries the table of its body, if its type carries one at all. -/
theorem table?_of_decode (h : decode mode b = .ok p) :
    p.table? = if p.type.carriesTable then some (Table.decode (bodyOf b)) else none := by
  cases verdict_iff.mpr h with
  | tank => rfl
  | table _ _ htype => obtain rfl | rfl | rfl := htype <;> rfl
  | empty _ _ htype => obtain rfl | rfl | rfl | rfl := htype <;> rfl

end Packet

namespace Field

variable {mode : DecodeMode} {b : Bytes} {p : Packet}

/-- A packet without a table has no cell. -/
theorem resolve_table_of_none (h : p.table? = none) (row : RowSelector) (col : ColSelector) :
    (table row col).resolve p = none := by
  rw [resolve, h, Option.bind_none]

/-- **A table field has the cell that it addresses for its value, and none if there is no such
cell.** This is so for every packet that is read; the rows are the lines of its body that are not
empty, and a packet without a table has no cell. A relative column below zero or beyond a word is
nowhere. -/
theorem resolve_table_iff (h : Packet.decode mode b = .ok p) (row : RowSelector)
    (col : ColSelector) :
    (∀ v, (table row col).resolve p = some v ↔ p.type.carriesTable = true ∧
      ∃ r base c cell, row.Chooses (Table.gridOf (Packet.bodyOf b)) r base ∧ col.Reaches base c ∧
        Row.cellAt (Table.gridOf (Packet.bodyOf b)) r c = some cell ∧ v = .bytes cell) ∧
    (∀ offset r base, col = .relative offset → row.Chooses (Table.gridOf (Packet.bodyOf b)) r base →
      (base + offset < 0 ∨ UInt64.size ≤ base + offset) → (table row col).resolve p = none) ∧
    (p.table? = none ↔ p.type.carriesTable = false) ∧
    ∀ q : Packet, q.table? = none → (table row col).resolve q = none := by
  have htable := Packet.table?_of_decode h
  have hcell : ∀ v, (table row col).resolve p = some v ↔ p.type.carriesTable = true ∧
      ∃ r base c cell, row.Chooses (Table.gridOf (Packet.bodyOf b)) r base ∧ col.Reaches base c ∧
        Row.cellAt (Table.gridOf (Packet.bodyOf b)) r c = some cell ∧ v = .bytes cell := by
    intro v
    cases hcarries : p.type.carriesTable with
    | false => simp [resolve, htable, hcarries]
    | true =>
      simp only [resolve, htable, hcarries, if_true, Option.bind_some, Option.map_eq_some_iff,
        Table.cell?_eq_some_iff (Table.exact_decode _), Table.rows_decode]
      grind
  refine ⟨hcell, fun offset r base hcol hrow hout => ?_, ?_,
    fun q hq => resolve_table_of_none hq row col⟩
  · rw [Option.eq_none_iff_forall_ne_some]
    intro v hv
    obtain ⟨_, r', base', c, _, hrow', hreaches, _⟩ := (hcell v).mp hv
    obtain ⟨rfl, rfl⟩ := hrow.unique hrow'
    rw [hcol] at hreaches
    obtain ⟨hsum, hword⟩ := hreaches
    have hword : (c : Int) < UInt64.size := by exact_mod_cast hword
    omega
  · rw [htable]
    cases p.type.carriesTable <;> simp

/-- A text packet with two rows of one key and an empty line between them. -/
def twice : Bytes := [2, 0, 0, 0] ++ [107, 124, 97, 10, 10, 107, 124, 98, 124, 99, 10] ++ [0]

/-- What those bytes spell. -/
def ofTwice : Packet := ⟨.genericText, .table (Table.decode (Packet.bodyOf twice))⟩

/-- The key addresses the second of its rows; the cell `b` has one to its right, and none that is
two to its left. -/
theorem resolve_table_iff_twice : Packet.decode .relaxed twice = .ok ofTwice ∧
    (table (.key "k") (.relative 1)).resolve ofTwice = some (.bytes [98]) ∧
    (table (.keyAny "b") (.relative 1)).resolve ofTwice = some (.bytes [99]) ∧
    (table (.keyAny "b") (.relative (-2))).resolve ofTwice = none := by
  have hdecode : Packet.decode .relaxed twice = .ok ofTwice := by rfl
  have hgrid : Table.gridOf (Packet.bodyOf twice) = [[[107], [97]], [[107], [98], [99]]] := by
    decide +kernel
  have hkey : (RowSelector.key "k").Chooses (Table.gridOf (Packet.bodyOf twice)) 1 0 := by
    have hk : Bytes.ofText "k" = [107] := by decide +kernel
    rw [hgrid]
    refine ⟨⟨by rw [hk]; rfl, fun j hj => ?_⟩, rfl⟩
    obtain ⟨_, hrow, _⟩ := Option.bind_eq_some_iff.mp hj
    exact Nat.le_of_lt_succ (List.getElem?_eq_some_iff.mp hrow).1
  have hany : (RowSelector.keyAny "b").Chooses (Table.gridOf (Packet.bodyOf twice)) 1 1 := by
    have hfind : (Table.decode (Packet.bodyOf twice)).find (Bytes.ofText "b") = some (1, 1) := by
      decide +kernel
    have hfirst := Table.find_eq_some_iff.mp hfind
    rwa [Table.rows_decode] at hfirst
  refine ⟨hdecode, ?_, ?_, ?_⟩
  · refine ((resolve_table_iff hdecode (.key "k") (.relative 1)).1 _).mpr ⟨rfl, 1, 0, 1, [98], hkey,
      ?_, ?_, rfl⟩
    · exact ⟨rfl, by decide⟩
    · rw [hgrid]; rfl
  · refine ((resolve_table_iff hdecode (.keyAny "b") (.relative 1)).1 _).mpr ⟨rfl, 1, 1, 2, [99],
      hany, ?_, ?_, rfl⟩
    · exact ⟨rfl, by decide⟩
    · rw [hgrid]; rfl
  · exact (resolve_table_iff hdecode (.keyAny "b") (.relative (-2))).2.1 (-2) 1 1 rfl hany
      (.inl (by decide))

end Field

end Intercept
