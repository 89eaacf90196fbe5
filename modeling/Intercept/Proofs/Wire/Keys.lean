import Mathlib
import Intercept.Wire.Table

/-!
# Intercept.Proofs.Wire.Keys

What the key index of a table finds.

```
t.keyAt i               the first cell of row i
Exact t key             the index has the greatest row with the key, and none if no row has it
t.changed c             what a change makes of the table
t.padded c hidden       the rows whose key cell came to be by padding since the last rebuild
Grown t hidden          the table came to be by changes, and these are such rows
```

Adding a row enters it as the greatest with its key; putting a row in place of
another leaves the keys as they are; removing a row, or writing a key cell, makes
the index anew, which is the same as adding the rows one by one
(`reindex_append`).  The one change that is not followed is a write behind the
key cell of a row without cells: the padding gives the row the empty key, and
the index does not hear of it.  So the index is right but for those rows
(`Grown.keyed`), and exact under every key but the empty one.
-/

namespace Intercept

namespace Table

variable {t u : Table} {hidden : List Nat} {key : Bytes} {i j : Nat}

/-! ## keys by row -/

/-- The first cell of a row. -/
def keyAt (t : Table) (i : Nat) : Option Bytes := t.rows[i]?.bind List.head?

/-- The index answers as the rows do: with the greatest row that has the key, if any has. -/
def Exact (t : Table) (key : Bytes) : Prop :=
  (∀ i, t.position key = some i ↔ IsGreatest {j | t.keyAt j = some key} i) ∧
    (t.position key = none ↔ ∀ j, t.keyAt j ≠ some key)

/-- Only a row of the table has a key. -/
theorem lt_length_of_keyAt (h : t.keyAt i = some key) : i < t.rows.length := by
  obtain ⟨row, hrow, -⟩ := Option.bind_eq_some_iff.mp h
  exact (List.getElem?_eq_some_iff.mp hrow).1

/-- Among rows with a key, if there are any, there is a greatest one. -/
theorem exists_isGreatest {s : Set Nat} (hs : ∀ j ∈ s, t.keyAt j = some key) (hj : j ∈ s) :
    ∃ i, IsGreatest s i :=
  BddAbove.exists_isGreatest_of_nonempty
    ⟨t.rows.length, fun i hi => (lt_length_of_keyAt (hs i hi)).le⟩ ⟨j, hj⟩

/-! ## changes -/

/-- What can be done to a table. -/
inductive Change where
  | append (row : Row)
  | set (key : Bytes) (cells : Row)
  | setCell (row col : Nat) (value : Bytes)
  | remove (key : Bytes)
  | setTrailingNewline (on : Bool)
deriving DecidableEq, Repr

/-- The table after a change; a removal that finds nothing changes nothing. -/
def changed (t : Table) : Change → Table
  | .append row => t.append row
  | .set key cells => t.set key cells
  | .setCell row col value => t.setCell row col value
  | .remove key => ((t.remove key).map (·.2)).getD t
  | .setTrailingNewline on => t.setTrailingNewline on

/-- The rows whose key cell came to be by padding since the index was last made anew, after a
change. -/
def padded (t : Table) (c : Change) (hidden : List Nat) : List Nat :=
  match c with
  | .setCell row col _ =>
    if col = 0 then [] else if t.rows[row]?.getD [] = [] then row :: hidden else hidden
  | .remove key => if (t.remove key).isSome then [] else hidden
  | _ => hidden

/-- The tables that come to be, from no rows or from bytes, with the rows whose key cell came to be
by padding since the index was last made anew. -/
inductive Grown : Table → List Nat → Prop where
  | empty : Grown empty []
  | decode (b : Bytes) : Grown (decode b) []
  | changed {t : Table} {hidden : List Nat} (h : Grown t hidden) (c : Change) :
      Grown (t.changed c) (t.padded c hidden)

/-! ## the index but for some rows -/

/-- The index has the greatest row with a key but for these rows, and they have the empty key. -/
structure Keyed (t : Table) (hidden : List Nat) : Prop where
  position : ∀ key i,
    t.position key = some i ↔ IsGreatest {j | t.keyAt j = some key ∧ j ∉ hidden} i
  blank : ∀ i ∈ hidden, t.keyAt i = some []

/-- Without rows the empty index is right. -/
theorem keyed_of_rows_eq_nil (hrows : t.rows = []) (hindex : t.index = []) : t.Keyed [] := by
  refine ⟨fun key i => ?_, List.forall_mem_nil _⟩
  simp [Table.position, hindex, keyAt, hrows, IsGreatest]

/-- Where a key is found is up to the index alone. -/
theorem position_congr (hindex : u.index = t.index) (key : Bytes) :
    u.position key = t.position key := by
  rw [Table.position, hindex, Table.position]

/-- What keeps the index and the key of every row keeps the index right. -/
theorem Keyed.congr (h : t.Keyed hidden) (hindex : u.index = t.index)
    (hkey : ∀ i, u.keyAt i = t.keyAt i) : u.Keyed hidden := by
  refine ⟨fun key i => ?_, fun i hi => by rw [hkey, h.blank i hi]⟩
  rw [position_congr hindex, h.position]
  simp only [hkey]

/-- A row that gets the empty key without the index is one more to except. -/
theorem Keyed.cons {row : Nat} (h : t.Keyed hidden) (hindex : u.index = t.index)
    (hnone : t.keyAt row = none)
    (hkey : ∀ i, u.keyAt i = if i = row then some [] else t.keyAt i) : u.Keyed (row :: hidden) := by
  refine ⟨fun key i => ?_, List.forall_mem_cons.mpr ⟨by rw [hkey, if_pos rfl], fun i hi => ?_⟩⟩
  · have hseen : ∀ j, u.keyAt j = some key ∧ j ∉ row :: hidden ↔
        t.keyAt j = some key ∧ j ∉ hidden := by
      intro j
      rw [hkey, List.mem_cons]
      by_cases hj : j = row
      · simp [hj, hnone]
      · simp [hj]
    rw [position_congr hindex, h.position]
    simp only [hseen]
  · rw [hkey, h.blank i hi, ite_self]

theorem keyAt_length (t : Table) : t.keyAt t.rows.length = none := by simp [keyAt]

/-- A row that is added has its first cell for a key, and the others keep theirs. -/
theorem keyAt_append (t : Table) (row : Row) (i : Nat) :
    (t.append row).keyAt i = if i = t.rows.length then row.head? else t.keyAt i := by
  have hrows : (t.append row).rows = t.rows ++ [row] := rfl
  rw [keyAt, hrows, keyAt]
  split
  · next hi => rw [hi, List.getElem?_concat_length, Option.bind_some]
  · next hi =>
      obtain hlt | hgt := Nat.lt_or_gt_of_ne hi
      · rw [List.getElem?_append_left hlt]
      · rw [List.getElem?_eq_none (by simpa using hgt), List.getElem?_eq_none hgt.le]

/-- It is found under that key from then on, and the others as before. -/
theorem position_append_cons (t : Table) (first key : Bytes) (cells : Row) :
    (t.append (first :: cells)).position key =
      if key = first then some t.rows.length else t.position key := by
  have hindex : (t.append (first :: cells)).index = (first, t.rows.length) :: t.index := rfl
  rw [Table.position, hindex, List.lookup_cons]
  by_cases hkey : key = first
  · simp [hkey]
  · simp [hkey, beq_eq_false_iff_ne.mpr hkey, Table.position]

/-- A new row is the greatest with its key. -/
theorem Keyed.append (h : t.Keyed hidden) (row : Row) : (t.append row).Keyed hidden := by
  have hlt : ∀ i ∈ hidden, i < t.rows.length := fun i hi => lt_length_of_keyAt (h.blank i hi)
  cases row with
  | nil =>
      refine h.congr rfl fun i => ?_
      rw [keyAt_append]
      split
      · next hi => rw [hi, keyAt_length, List.head?_nil]
      · rfl
  | cons first cells =>
      refine ⟨fun key i => ?_, fun i hi => by rw [keyAt_append, if_neg (hlt i hi).ne, h.blank i hi]⟩
      rw [position_append_cons]
      by_cases hkey : key = first
      · subst hkey
        have hgreatest : IsGreatest {j | (t.append (key :: cells)).keyAt j = some key ∧ j ∉ hidden}
            t.rows.length := by
          refine ⟨⟨?_, fun hin => (hlt _ hin).false⟩, ?_⟩
          · rw [keyAt_append, if_pos rfl, List.head?_cons]
          · rintro j ⟨hj, -⟩
            have hj := lt_length_of_keyAt hj
            have hlength : (t.append (key :: cells)).rows.length = t.rows.length + 1 := by
              simp [Table.append]
            omega
        rw [if_pos rfl, Option.some_inj]
        exact ⟨fun hi => hi ▸ hgreatest, hgreatest.unique⟩
      · rw [if_neg hkey, h.position]
        have hold : ∀ j, (t.append (first :: cells)).keyAt j = some key ↔ t.keyAt j = some key := by
          intro j
          rw [keyAt_append]
          split
          · next hj => simp [hj, keyAt_length, Ne.symm hkey]
          · rfl
        simp only [hold]

/-! ## the index made anew -/

/-- Making the index anew enters the last row last. -/
theorem indexFrom_concat (entries : List (Bytes × Nat)) (rs : List Row) (row : Row) :
    indexFrom i entries (rs ++ [row]) = match row with
      | [] => indexFrom i entries rs
      | key :: _ => (key, i + rs.length) :: indexFrom i entries rs := by
  fun_induction indexFrom i entries rs with
  | case1 i entries => cases row <;> rfl
  | case2 i entries key cells rs ih =>
      rw [List.cons_append, indexFrom, ih]
      cases row with
      | nil => rfl
      | cons first _ => simp [Nat.add_assoc, Nat.add_comm 1]
  | case3 i entries rs ih =>
      rw [List.cons_append, indexFrom, ih]
      cases row with
      | nil => rfl
      | cons first _ => simp [Nat.add_assoc, Nat.add_comm 1]

/-- To make the index anew is to add the rows one by one. -/
theorem reindex_append (t : Table) (row : Row) : (t.append row).reindex = t.reindex.append row := by
  have hrows : (t.append row).rows = t.rows ++ [row] := rfl
  unfold reindex
  rw [hrows, indexFrom_concat, Nat.zero_add]
  rfl

/-- An index made anew is right about every row. -/
theorem keyed_reindex (t : Table) : t.reindex.Keyed [] := by
  obtain ⟨rs, index, trailingNewline⟩ := t
  -- the last row is entered last, so rows come off the end
  induction rs using List.reverseRecOn with
  | nil => exact keyed_of_rows_eq_nil rfl rfl
  | append_singleton rs row ih =>
      exact reindex_append ⟨rs, index, trailingNewline⟩ row ▸ ih.append row

/-! ## one change -/

/-- Putting a row in place of another with its key leaves the keys as they are. -/
theorem Keyed.set (h : t.Keyed hidden) (key : Bytes) (cells : Row) :
    (t.set key cells).Keyed hidden := by
  unfold Table.set
  split
  · next i hposition =>
      obtain ⟨⟨hkey, -⟩, -⟩ := (h.position key i).mp hposition
      have hi := lt_length_of_keyAt hkey
      rw [if_pos hi]
      refine h.congr rfl fun j => ?_
      by_cases hij : i = j
      · subst hij
        rw [hkey, keyAt, List.getElem?_set_self hi, Option.bind_some, List.head?_cons]
      · rw [keyAt, List.getElem?_set_ne hij, keyAt]
  · exact h.append (key :: cells)

/-- A row that is not there counts as one without cells, so padding with such rows changes none. -/
theorem getD_pad (rs : List Row) (n i : Nat) :
    (rs ++ List.replicate n [])[i]?.getD [] = rs[i]?.getD [] := by
  rw [List.getElem?_append]
  split
  · rfl
  · next hi =>
      rw [List.getElem?_eq_none (Nat.le_of_not_lt hi), List.getElem?_replicate]
      split <;> rfl

theorem keyAt_eq_head? (t : Table) (i : Nat) : t.keyAt i = (t.rows[i]?.getD []).head? := by
  rw [keyAt]
  cases t.rows[i]? with
  | none => rfl
  | some row => rfl

/-- A write behind the first cell keeps it; in a row without cells it is padded. -/
theorem head?_pad_set {line : Row} {col n : Nat} (value : Bytes) (hcol : col ≠ 0)
    (hn : line = [] → n ≠ 0) :
    ((line ++ List.replicate n []).set col value).head? = some (line.head?.getD []) := by
  obtain ⟨col, rfl⟩ := Nat.exists_eq_succ_of_ne_zero hcol
  cases line with
  | nil =>
      obtain ⟨n, rfl⟩ := Nat.exists_eq_succ_of_ne_zero (hn rfl)
      rfl
  | cons first cells => rfl

/-- A cell behind the key cell leaves the keys alone, but gives a row without cells the empty
one. -/
theorem keyAt_setCell (t : Table) {col : Nat} (hcol : col ≠ 0) (row : Nat) (value : Bytes)
    (i : Nat) :
    (t.setCell row col value).keyAt i =
      if i = row then some ((t.keyAt row).getD []) else t.keyAt i := by
  simp only [setCell, if_neg hcol, keyAt_eq_head?]
  split
  · next hi =>
      rw [hi, List.getElem?_set_self (by rw [List.length_append, List.length_replicate]; omega),
        Option.getD_some, getD_pad]
      exact head?_pad_set value hcol fun hline => by rw [hline]; exact Nat.succ_ne_zero col
  · next hi => rw [List.getElem?_set_ne (Ne.symm hi), getD_pad]

/-- It leaves the index alone in either case. -/
theorem index_setCell (t : Table) {col : Nat} (hcol : col ≠ 0) (row : Nat) (value : Bytes) :
    (t.setCell row col value).index = t.index := by
  simp only [setCell, if_neg hcol]

/-- A write behind the key cell of a row without cells hides that row under the empty key. -/
theorem Keyed.setCell (h : t.Keyed hidden) (row col : Nat) (value : Bytes) :
    (t.setCell row col value).Keyed (t.padded (.setCell row col value) hidden) := by
  have hpadded : t.padded (.setCell row col value) hidden =
      if col = 0 then [] else if t.rows[row]?.getD [] = [] then row :: hidden else hidden := rfl
  rw [hpadded]
  split
  · next hcol =>
      simp only [Table.setCell, if_pos hcol]
      exact keyed_reindex _
  · next hcol =>
      have hindex := index_setCell t hcol row value
      have hkeyAt := keyAt_setCell t hcol row value
      split
      · next hline =>
          have hnone : t.keyAt row = none := by rw [keyAt_eq_head?, hline, List.head?_nil]
          rw [hnone] at hkeyAt
          exact h.cons hindex hnone hkeyAt
      · next hline =>
          obtain ⟨first, cells, hcells⟩ := List.exists_cons_of_ne_nil hline
          have hsome : t.keyAt row = some first := by rw [keyAt_eq_head?, hcells, List.head?_cons]
          refine h.congr hindex fun i => ?_
          rw [hkeyAt, hsome]
          split
          · next hi => rw [hi, hsome, Option.getD_some]
          · rfl

/-- A removal that finds its key makes the index anew. -/
theorem Keyed.remove (h : t.Keyed hidden) (key : Bytes) :
    (t.changed (.remove key)).Keyed (t.padded (.remove key) hidden) := by
  have hchanged : t.changed (.remove key) = ((t.remove key).map (·.2)).getD t := rfl
  have hpadded : t.padded (.remove key) hidden = if (t.remove key).isSome then [] else hidden := rfl
  rw [hchanged, hpadded]
  cases hremove : t.remove key with
  | none => exact h
  | some out =>
      obtain ⟨i, -, hremove⟩ := Option.bind_eq_some_iff.mp hremove
      obtain ⟨row, -, hout⟩ := Option.bind_eq_some_iff.mp hremove
      rw [← Option.some_inj.mp hout]
      exact keyed_reindex _

/-- No change leaves a row out of the index that is not padded. -/
theorem Keyed.changed (h : t.Keyed hidden) (c : Change) :
    (t.changed c).Keyed (t.padded c hidden) := by
  cases c with
  | append row => exact h.append row
  | set key cells => exact h.set key cells
  | setCell row col value => exact h.setCell row col value
  | remove key => exact h.remove key
  | setTrailingNewline on => exact h.congr rfl fun _ => rfl

/-- The index of every table is right but for its padded rows. -/
theorem Grown.keyed (h : Grown t hidden) : t.Keyed hidden := by
  induction h with
  | empty => exact keyed_of_rows_eq_nil rfl rfl
  | decode b => exact keyed_reindex _
  | changed _ c ih => exact ih.changed c

/-! ## where the index is exact -/

/-- A key is not found if and only if only padded rows have it. -/
theorem Keyed.position_eq_none_iff (h : t.Keyed hidden) :
    t.position key = none ↔ ∀ j, t.keyAt j = some key → j ∈ hidden := by
  rw [Option.eq_none_iff_forall_ne_some]
  constructor
  · intro hnone j hj
    by_contra hrows
    obtain ⟨i, hi⟩ := exists_isGreatest (s := {j | t.keyAt j = some key ∧ j ∉ hidden})
      (fun _ hi => hi.1) ⟨hj, hrows⟩
    exact hnone i ((h.position key i).mpr hi)
  · intro hall i hi
    obtain ⟨⟨hkey, hrows⟩, -⟩ := (h.position key i).mp hi
    exact hrows (hall i hkey)

/-- The index is exact under a key just if the greatest row with it is not a padded one. -/
theorem Keyed.exact_iff (h : t.Keyed hidden) :
    t.Exact key ↔ ∀ i ∈ hidden, ¬IsGreatest {j | t.keyAt j = some key} i := by
  constructor
  · intro hexact i hi hgreatest
    obtain ⟨⟨-, hseen⟩, -⟩ := (h.position key i).mp ((hexact.1 i).mpr hgreatest)
    exact hseen hi
  · intro hseen
    refine ⟨fun i => ?_, ?_⟩
    · rw [h.position]
      constructor
      · rintro ⟨⟨hkey, hi⟩, hupper⟩
        obtain ⟨g, hg⟩ := exists_isGreatest (s := {j | t.keyAt j = some key}) (fun _ hi => hi) hkey
        have hgi : g ≤ i := hupper ⟨hg.1, fun hin => hseen g hin hg⟩
        exact ⟨hkey, fun j hj => (hg.2 hj).trans hgi⟩
      · intro hi
        exact ⟨⟨hi.1, fun hin => hseen i hin hi⟩, fun j hj => hi.2 hj.1⟩
    · rw [h.position_eq_none_iff]
      constructor
      · intro hall j hj
        obtain ⟨g, hg⟩ := exists_isGreatest (s := {j | t.keyAt j = some key}) (fun _ hi => hi) hj
        exact hseen g (hall g hg.1) hg
      · exact fun hnone j hj => absurd hj (hnone j)

/-- Padded rows have the empty key, so under every other key the index is exact. -/
theorem Keyed.exact_of_ne_nil (h : t.Keyed hidden) (hkey : key ≠ []) : t.Exact key := by
  rw [h.exact_iff]
  rintro i hi ⟨hblank, -⟩
  exact hkey (Option.some_inj.mp (hblank.symm.trans (h.blank i hi)))

/-! ## tables that agree -/

/-- Where the index is exact, tables with the same rows find a key in the same row. -/
theorem position_eq_of_agrees (h : t.agrees u = true) (ht : t.Exact key) (hu : u.Exact key) :
    t.position key = u.position key := by
  obtain ⟨hrows, -⟩ := agrees_iff.mp h
  have hkeyAt : t.keyAt = u.keyAt := by
    funext i
    rw [keyAt, hrows, keyAt]
  refine Option.ext fun i => ?_
  rw [ht.1 i, hu.1 i, hkeyAt]

/-- What is found by a key follows from the rows and the position of the key. -/
theorem keyRow_eq_of_agrees (h : t.agrees u = true) (hposition : t.position key = u.position key) :
    t.keyRow key = u.keyRow key := by
  obtain ⟨hrows, -⟩ := agrees_iff.mp h
  have hrow : t.row = u.row := by
    funext i
    rw [row, hrows, row]
  rw [keyRow, hposition, hrow, keyRow]

/-- What remains after a removal is indexed anew, so nothing of the former index remains. -/
theorem remove_eq_of_agrees (h : t.agrees u = true) (hposition : t.position key = u.position key) :
    t.remove key = u.remove key := by
  obtain ⟨hrows, htrailing⟩ := agrees_iff.mp h
  simp only [remove, hposition, row, reindex, hrows, htrailing]

/-! ## the key index -/

/-- The index of a table that came to be by changes has, for every key, the greatest row with that
key, but for the rows whose key cell came to be by padding since the index was last made anew. Those
have the empty key: under every other key the index is exact, and under that one just if the
greatest row with it is none of them. Tables that agree answer alike under every key for which both
indexes are exact. -/
theorem Grown.exact_but_for_padding (h : Grown t hidden) :
    (∀ key i, t.position key = some i ↔ IsGreatest {j | t.keyAt j = some key ∧ j ∉ hidden} i) ∧
    (∀ key, t.position key = none ↔ ∀ j, t.keyAt j = some key → j ∈ hidden) ∧
    (∀ i ∈ hidden, t.keyAt i = some []) ∧
    (∀ key, key ≠ [] → t.Exact key) ∧
    (t.Exact [] ↔ ∀ i ∈ hidden, ¬IsGreatest {j | t.keyAt j = some []} i) ∧
    ∀ u key, t.agrees u = true → t.Exact key → u.Exact key →
      t.position key = u.position key ∧ t.containsKey key = u.containsKey key ∧
        t.get key = u.get key ∧ (∀ col, t.cell key col = u.cell key col) ∧
          t.remove key = u.remove key := by
  have hkeyed := h.keyed
  refine ⟨hkeyed.position, fun key => hkeyed.position_eq_none_iff, hkeyed.blank,
    fun key hkey => hkeyed.exact_of_ne_nil hkey, hkeyed.exact_iff, fun u key hagrees ht hu => ?_⟩
  have hposition := position_eq_of_agrees hagrees ht hu
  have hkeyRow := keyRow_eq_of_agrees hagrees hposition
  refine ⟨hposition, ?_, ?_, fun col => ?_, remove_eq_of_agrees hagrees hposition⟩
  · rw [containsKey, hposition, containsKey]
  · rw [get, hkeyRow, get]
  · rw [cell, hkeyRow, cell]

/-- A row with a key, and below it one whose second cell alone was written. -/
def halfWritten : Table := (empty.append [[107], [118]]).setCell 1 1 [120]

/-- The row that is written in the middle has its key by padding. -/
theorem grown_halfWritten : Grown halfWritten [1] :=
  (Grown.empty.changed (.append [[107], [118]])).changed (.setCell 1 1 [120])

/-- Of a row without a key cell the index knows nothing, but of the row above it everything. -/
theorem exact_but_for_padding_half_written :
    Grown halfWritten [1] ∧ halfWritten.position [107] = some 0 ∧ halfWritten.Exact [107] ∧
      ¬halfWritten.Exact [] ∧
      halfWritten.remove [107] = (decode halfWritten.encode).remove [107] := by
  have hagrees : halfWritten.agrees (decode halfWritten.encode) = true := rfl
  obtain ⟨-, -, -, hexact, hempty, halike⟩ := Grown.exact_but_for_padding grown_halfWritten
  obtain ⟨-, -, -, hread, -⟩ := Grown.exact_but_for_padding (Grown.decode halfWritten.encode)
  have hgreatest : IsGreatest {j | halfWritten.keyAt j = some []} 1 :=
    ⟨rfl, fun j hj => Nat.le_of_lt_succ (lt_length_of_keyAt hj)⟩
  obtain ⟨-, -, -, -, hremove⟩ := halike (decode halfWritten.encode) [107] hagrees
    (hexact [107] (List.cons_ne_nil _ _)) (hread [107] (List.cons_ne_nil _ _))
  exact ⟨grown_halfWritten, rfl, hexact [107] (List.cons_ne_nil _ _),
    fun hall => hempty.mp hall 1 List.mem_cons_self hgreatest, hremove⟩

/-- The row has the empty key and is not found under it; it is found by a table that agrees with
this one in every row. -/
theorem half_written_not_found :
    Grown halfWritten [1] ∧ halfWritten.keyAt 1 = some [] ∧ halfWritten.position [] = none ∧
      (decode halfWritten.encode).agrees halfWritten = true ∧
      (decode halfWritten.encode).position [] = some 1 :=
  ⟨grown_halfWritten, rfl, rfl, rfl, rfl⟩

end Table

end Intercept
