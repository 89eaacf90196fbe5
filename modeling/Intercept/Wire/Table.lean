import Intercept.Bytes

/-!
# Intercept.Wire.Table

Text tables: rows of cells, `|` between the cells and a newline between the
rows.

1. Nothing is escaped, so a cell that holds a separator does not read back.
2. Empty lines are skipped, and newlines at the end are remembered as one flag.
3. The first cell of a row is its key. A look-up by key finds the row that
   the key index names, which is the last one indexed under that key. A row
   whose key cell only came to be by padding is indexed with the next
   rebuild, that is by writing a key cell or removing a row.
-/

namespace Intercept

/-- A row of cells. -/
abbrev Row := List Bytes

/-- A text table. -/
structure Table where
  rows : List Row
  /-- Row numbers by key, the latest entry first. -/
  index : List (Bytes × Nat)
  trailingNewline : Bool
deriving DecidableEq, Repr

namespace Table

/-- Between rows. -/
def rowSep : UInt8 := 10

/-- Between cells. -/
def cellSep : UInt8 := 124

/-- No rows. -/
def empty : Table := ⟨[], [], false⟩

/-! ## The key index -/

/-- Index the rows from number `i` on over what is indexed already. -/
def indexFrom (i : Nat) (entries : List (Bytes × Nat)) : List Row → List (Bytes × Nat)
  | [] => entries
  | (key :: _) :: rows => indexFrom (i + 1) ((key, i) :: entries) rows
  | [] :: rows => indexFrom (i + 1) entries rows

/-- The table with its index made anew from its rows. -/
def reindex (t : Table) : Table := { t with index := indexFrom 0 [] t.rows }

/-- The row number that the index has for a key. -/
def position (t : Table) (key : Bytes) : Option Nat := t.index.lookup key

/-- Whether a key is indexed. -/
def containsKey (t : Table) (key : Bytes) : Bool := (t.position key).isSome

/-! ## Bytes -/

/-- The bytes without the newlines at their end. -/
def stripNewlines (b : Bytes) : Bytes := (b.reverse.dropWhile (· = rowSep)).reverse

/-- The table that these bytes spell; all do. -/
def decode (b : Bytes) : Table :=
  let body := stripNewlines b
  let lines := (Bytes.splitBy rowSep body).filter (· ≠ [])
  reindex ⟨lines.map (Bytes.splitBy cellSep), [], body.length ≠ b.length⟩

/-- The bytes of a table. -/
def encode (t : Table) : Bytes :=
  Bytes.joinBy rowSep (t.rows.map (Bytes.joinBy cellSep)) ++
    if t.trailingNewline then [rowSep] else []

/-- Whether two tables have the same rows and the same end. -/
def agrees (t u : Table) : Bool := t.rows == u.rows && t.trailingNewline == u.trailingNewline

theorem agrees_iff {t u : Table} :
    t.agrees u = true ↔ t.rows = u.rows ∧ t.trailingNewline = u.trailingNewline := by
  simp [agrees]

/-! ## Look-ups -/

/-- The number of rows. -/
def length (t : Table) : Nat := t.rows.length

/-- The row with a number. -/
def row (t : Table) (i : Nat) : Option Row := t.rows[i]?

/-- The row of a key. -/
def keyRow (t : Table) (key : Bytes) : Option Row := (t.position key).bind t.row

/-- The cells of a key's row, without the key. -/
def get (t : Table) (key : Bytes) : Option Row := (t.keyRow key).map (·.drop 1)

/-- A cell of a key's row; column zero is the key. -/
def cell (t : Table) (key : Bytes) (col : Nat) : Option Bytes := (t.keyRow key).bind (·[col]?)

/-- Row and column of the first cell, row by row, that equals a value, in rows from `i` on. -/
def findFrom (value : Bytes) (i : Nat) : List Row → Option (Nat × Nat)
  | [] => none
  | row :: rows =>
    match row.findIdx? (· = value) with
    | some col => some (i, col)
    | none => findFrom value (i + 1) rows

/-- Row and column of the first cell, row by row, that equals a value. -/
def find (t : Table) (value : Bytes) : Option (Nat × Nat) := findFrom value 0 t.rows

/-- The column `offset` away from `col`; there is none before the first one, and none whose number
has more than 64 bits. -/
def shiftColumn (col : Nat) (offset : Int) : Option Nat :=
  let c := (col : Int) + offset
  if 0 ≤ c ∧ c < UInt64.size then some c.toNat else none

/-- The cell `offset` columns away from the first cell that equals a value. -/
def relative (t : Table) (value : Bytes) (offset : Int) : Option Bytes := do
  let (r, c) ← t.find value
  let col ← shiftColumn c offset
  (← t.row r)[col]?

/-! ## Changes -/

/-- Add a row at the end. -/
def append (t : Table) (row : Row) : Table :=
  { t with
    rows := t.rows ++ [row]
    index := match row with
      | [] => t.index
      | key :: _ => (key, t.rows.length) :: t.index }

/-- Put `key` and these cells in place of the key's row, or at the end. -/
def set (t : Table) (key : Bytes) (cells : Row) : Table :=
  match t.position key with
  | some i =>
    if i < t.rows.length then { t with rows := t.rows.set i (key :: cells) }
    else t.append (key :: cells)
  | none => t.append (key :: cells)

/-- Write a cell, padding the table with empty rows and the row with empty cells as needed. -/
def setCell (t : Table) (row col : Nat) (value : Bytes) : Table :=
  let rows := t.rows ++ List.replicate (row + 1 - t.rows.length) []
  let line := rows[row]?.getD []
  let line := line ++ List.replicate (col + 1 - line.length) []
  let t := { t with rows := rows.set row (line.set col value) }
  if col = 0 then t.reindex else t

/-- Take the key's row out: its cells, and the table without it. -/
def remove (t : Table) (key : Bytes) : Option (Row × Table) := do
  let i ← t.position key
  let row ← t.row i
  return (row, reindex { t with rows := t.rows.eraseIdx i })

/-- Say whether the bytes end in a newline. -/
def setTrailingNewline (t : Table) (on : Bool) : Table := { t with trailingNewline := on }

end Table

end Intercept
