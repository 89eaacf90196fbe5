import Intercept.Proofs.Wire.Cursor

/-!
# Intercept.Proofs.Wire.Replay

What is written one behind the other is read back one behind the other.

```
Entry           a value that fits the way it is written, or a switch of the byte order
x.writing       the operation that writes it
x.reading       the operation that reads it
x.spelt e       its bytes in the order e
spelt e xs      the bytes of entries, each in the order that the switches before it leave
```

1. At the end of a buffer, writing an entry appends its bytes
   (`perform_writing`).
2. Where its bytes are next, reading an entry answers with the value and takes
   just these (`perform_reading`), whatever stands behind them.
3. So a reader that switches where the writer has switched gets all values, and
   comes out behind the last of them (`replayed`).
-/

namespace Intercept

/-! ## signed numbers -/

theorem wordCount_pos (w : Nat) : 0 < wordCount w := Nat.pow_pos (by decide)

/-- A signed number is written modulo what its width can say. -/
theorem natCast_ofSigned (w : Nat) (i : Int) : (ofSigned w i : Int) = i % wordCount w :=
  Int.toNat_of_nonneg (Int.emod_nonneg i (by have := wordCount_pos w; omega))

theorem ofSigned_lt (w : Nat) (i : Int) : ofSigned w i < wordCount w := by
  have hpos := wordCount_pos w
  have hlt : i % wordCount w < wordCount w := Int.emod_lt_of_pos i (by omega)
  rw [← natCast_ofSigned] at hlt
  omega

/-- It is read again if it is in the range of its width. -/
theorem toSigned_ofSigned {w : Nat} {i : Int} (hl : -(wordCount w : Int) ≤ 2 * i)
    (hu : 2 * i < wordCount w) : toSigned w (ofSigned w i) = i := by
  rw [toSigned, natCast_ofSigned, Int.emod_bmod, Int.bmod_eq_of_le_mul_two (by omega) (by omega)]

namespace Buffer

/-! ## entries -/

/-- A value that fits the way it is written, or a switch of the byte order. -/
inductive Entry where
  /-- An unsigned number of `w` bytes, or the bits of a float of that width. -/
  | number (w n : Nat) (fits : n < wordCount w)
  /-- A number of `w` bytes in two's complement. -/
  | signed (w : Nat) (i : Int) (fits : -(wordCount w : Int) ≤ 2 * i ∧ 2 * i < wordCount w)
  | bytes (bs : Bytes)
  | prefixed (bs : Bytes) (w : LengthWidth) (fits : bs.length ≤ w.max)
  | cstring (bs : Bytes) (fits : 0 ∉ bs)
  | setEndian (e : Endian)

namespace Entry

/-- The operation that writes an entry. -/
def writing : Entry → Operation
  | number w n _ => .write (.number w n)
  | signed w i _ => .write (.signed w i)
  | bytes bs => .write (.bytes bs)
  | prefixed bs w _ => .write (.prefixed bs w)
  | cstring bs _ => .write (.cstring bs)
  | setEndian e => .setEndian e

/-- The operation that reads an entry. -/
def reading : Entry → Operation
  | number w _ _ => .read (.number w)
  | signed w _ _ => .read (.signed w)
  | bytes bs => .read (.bytes bs.length)
  | prefixed _ w _ => .read (.prefixed w)
  | cstring _ _ => .read .cstring
  | setEndian e => .setEndian e

/-- What reading an entry has to answer. -/
def answer : Entry → Answer
  | number _ n _ => .number n
  | signed _ i _ => .signed i
  | bytes bs | prefixed bs _ _ | cstring bs _ => .bytes bs
  | setEndian _ => .done

/-- The bytes of an entry. -/
def spelt (e : Endian) : Entry → Bytes
  | number w n _ => e.encode w n
  | signed w i _ => e.encode w (ofSigned w i)
  | bytes bs => bs
  | prefixed bs w _ => e.encode w.bytes bs.length ++ bs
  | cstring bs _ => bs ++ [0]
  | setEndian _ => []

/-- The byte order behind an entry. -/
def order (e : Endian) : Entry → Endian
  | setEndian e' => e'
  | _ => e

end Entry

/-- The bytes of entries, each in the order that the switches before it leave. -/
def spelt : Endian → List Entry → Bytes
  | _, [] => []
  | e, x :: xs => x.spelt e ++ spelt (x.order e) xs

variable {b : Buffer} {rest : Bytes}

/-! ## writing at the end -/

/-- What is written at the end is appended. -/
theorem writeBytes_of_end (h : b.writePos = b.length) (bs : Bytes) :
    b.writeBytes bs = { b with bytes := b.bytes ++ bs, writePos := b.length + bs.length } := by
  simp [writeBytes, h, length]

/-- What an entry is written with spells its bytes. -/
theorem put_entry {x : Entry} {y : Writing} (hx : x.writing = .write y) (e : Endian) :
    y.spell e = some (x.spelt e) ∧ x.order e = e := by
  cases x with
  | setEndian e' => cases hx
  | prefixed bs w fits =>
      cases hx
      exact ⟨if_pos fits, rfl⟩
  | number | signed | bytes | cstring =>
      cases hx
      exact ⟨rfl, rfl⟩

/-- Writing an entry appends its bytes. -/
theorem perform_writing (h : b.writePos = b.length) (x : Entry) :
    b.perform x.writing = (.ok .done, ⟨b.bytes ++ x.spelt b.endian, b.readPos,
      b.length + (x.spelt b.endian).length, x.order b.endian⟩) := by
  cases hx : x.writing with
  | write y =>
      obtain ⟨hspell, horder⟩ := put_entry hx b.endian
      rw [perform, put_of_spell hspell, writeBytes_of_end h, horder]
  | setEndian e =>
      cases x <;> cases hx
      simp [perform, setEndian, Entry.spelt, Entry.order, h]
  | read | seekWrite => cases x <;> cases hx

/-- Writing entries appends their bytes, and nothing is refused. -/
theorem run_writing (h : b.writePos = b.length) (xs : List Entry) :
    b.answers (xs.map Entry.writing) = xs.map (fun _ => .ok .done) ∧
      (b.run (xs.map Entry.writing)).bytes = b.bytes ++ spelt b.endian xs ∧
      (b.run (xs.map Entry.writing)).readPos = b.readPos := by
  induction xs generalizing b with
  | nil => simp [answers, run, spelt]
  | cons x xs ih =>
      have hend : b.length + (x.spelt b.endian).length = (b.bytes ++ x.spelt b.endian).length := by
        simp [length]
      have hx := perform_writing h x
      obtain ⟨hanswers, hbytes, hread⟩ := ih (b := (b.perform x.writing).2) (by rw [hx]; exact hend)
      simp only [hx] at hanswers hbytes hread
      simp [answers, run, hx, hanswers, hbytes, hread, spelt]

/-! ## reading what is next -/

/-- What is next remains to be read. -/
theorem le_remaining {bs : Bytes} (h : b.unread = bs ++ rest) : bs.length ≤ b.remaining := by
  rw [← length_unread, h]
  simp

/-- Bytes that are next are read. -/
theorem readBytes_of_unread {bs : Bytes} (h : b.unread = bs ++ rest) :
    b.readBytes bs.length = (.ok bs, b.skip bs.length) := by
  rw [readBytes_eq, if_pos (le_remaining h), h, List.take_left]

/-- A word whose bytes are next is there and says its number. -/
theorem decode_of_unread {w n : Nat} (h : b.unread = b.endian.encode w n ++ rest)
    (hn : n < wordCount w) : w ≤ b.remaining ∧ b.endian.decode (b.unread.take w) = n := by
  constructor
  · simpa using le_remaining h
  · rw [h, List.take_left' (b.endian.length_encode w n), Endian.decode_encode, Nat.mod_eq_of_lt hn]

/-- Bytes behind their length word are read, and taken with it. -/
theorem readPrefixed_of_unread {bs : Bytes} {w : LengthWidth} (fits : bs.length ≤ w.max)
    (h : b.unread = b.endian.encode w.bytes bs.length ++ bs ++ rest) :
    b.readPrefixed w = (.ok bs, b.skip (w.bytes + bs.length)) := by
  have hlt : bs.length < wordCount w.bytes := by
    have hpos := wordCount_pos w.bytes
    rw [LengthWidth.max] at fits
    omega
  rw [List.append_assoc] at h
  obtain ⟨hw, hdeclared⟩ := decode_of_unread h hlt
  have hbody : (b.skip w.bytes).unread = bs ++ rest := by
    rw [unread_skip, h, List.drop_left' (b.endian.length_encode _ _)]
  rw [readPrefixed_eq, if_pos hw, declared, hdeclared, readBytes_of_unread hbody, skip_skip]

/-- A text before a zero is read, and the zero taken with it. -/
theorem readCString_of_unread {bs : Bytes} (fits : 0 ∉ bs) (h : b.unread = bs ++ [0] ++ rest) :
    b.readCString = (.ok bs, b.skip (bs.length + 1)) := by
  have hunread : b.unread = bs ++ 0 :: rest := by simpa using h
  rw [readCString_eq, if_pos (by simp [hunread]), nextText_eq hunread fits]

/-- What an entry is read with answers with its value and takes its bytes. -/
theorem ask_entry {x : Entry} {y : Reading} (hx : x.reading = .read y)
    (h : b.unread = x.spelt b.endian ++ rest) :
    b.ask y = (.ok x.answer, b.skip (x.spelt b.endian).length) ∧ x.order b.endian = b.endian := by
  cases x with
  | setEndian e => cases hx
  | number w n fits =>
      cases hx
      obtain ⟨hw, hn⟩ := decode_of_unread h fits
      exact ⟨by simp [ask, readWord_eq, hw, hn, Except.map, Entry.answer, Entry.spelt], rfl⟩
  | signed w i fits =>
      cases hx
      obtain ⟨hw, hn⟩ := decode_of_unread h (ofSigned_lt w i)
      have hi := toSigned_ofSigned fits.1 fits.2
      exact ⟨by simp [ask, readSigned_eq, hw, hn, hi, Except.map, Entry.answer, Entry.spelt], rfl⟩
  | bytes bs =>
      cases hx
      have hread : b.readBytes bs.length = (.ok bs, b.skip bs.length) := readBytes_of_unread h
      exact ⟨by simp [ask, hread, Except.map, Entry.answer, Entry.spelt], rfl⟩
  | prefixed bs w fits =>
      cases hx
      have hread := readPrefixed_of_unread fits h
      exact ⟨by simp [ask, hread, Except.map, Entry.answer, Entry.spelt], rfl⟩
  | cstring bs fits =>
      cases hx
      have hread := readCString_of_unread fits h
      exact ⟨by simp [ask, hread, Except.map, Entry.answer, Entry.spelt], rfl⟩

/-- Where the bytes of an entry are next, reading it answers with its value and takes just these. -/
theorem perform_reading (x : Entry) (h : b.unread = x.spelt b.endian ++ rest) :
    b.perform x.reading =
      (.ok x.answer, (b.skip (x.spelt b.endian).length).setEndian (x.order b.endian)) := by
  cases hx : x.reading with
  | read y =>
      obtain ⟨hask, horder⟩ := ask_entry hx h
      rw [perform, hask, horder]
      rfl
  | setEndian e =>
      cases x <;> cases hx
      rfl
  | write | seekWrite => cases x <;> cases hx

/-- Entries are read one behind the other, whatever stands behind them. -/
theorem run_reading (xs : List Entry) (h : b.unread = spelt b.endian xs ++ rest) :
    b.answers (xs.map Entry.reading) = xs.map (fun x => .ok x.answer) ∧
      (b.run (xs.map Entry.reading)).unread = rest := by
  induction xs generalizing b with
  | nil => exact ⟨rfl, h⟩
  | cons x xs ih =>
      rw [spelt, List.append_assoc] at h
      have hx := perform_reading x h
      have hnext : (b.perform x.reading).2.unread = spelt (x.order b.endian) xs ++ rest := by
        rw [hx]
        exact (unread_skip b _).trans (by rw [h, List.drop_left])
      obtain ⟨hanswers, hunread⟩ := ih (b := (b.perform x.reading).2) (by rw [hnext, hx]; rfl)
      refine ⟨?_, hunread⟩
      rw [List.map_cons, answers, hanswers, hx, List.map_cons]

/-! ## there and back -/

/-- The entries are what is read from the buffer, and then nothing is left. -/
def Yields (b : Buffer) (xs : List Entry) : Prop :=
  b.answers (xs.map Entry.reading) = xs.map (fun x => .ok x.answer) ∧
    (b.run (xs.map Entry.reading)).remaining = 0

/-- If nothing stands behind them, nothing is left. -/
theorem yields_of_unread {xs : List Entry} (h : b.unread = spelt b.endian xs) : b.Yields xs := by
  have hall : b.unread = spelt b.endian xs ++ [] := by rw [h, List.append_nil]
  obtain ⟨hanswers, hrest⟩ := run_reading xs hall
  exact ⟨hanswers, by rw [← length_unread, hrest, List.length_nil]⟩

/-- Entries that are written one behind the other into a new buffer are read back one behind the
other, from this buffer or from another one with its bytes, by whoever starts in the same byte order
and switches it where the writer has; nothing is left then.  A byte string that its length word
cannot count is refused, and the buffer stays as it was. -/
theorem replayed (e : Endian) (xs : List Entry) :
    let b := (empty e).run (xs.map Entry.writing)
    (empty e).answers (xs.map Entry.writing) = xs.map (fun _ => .ok .done) ∧
      (b.setEndian e).Yields xs ∧ (ofBytes b.bytes e).Yields xs ∧
      ∀ (c : Buffer) (bs : Bytes) (w : LengthWidth), w.max < bs.length →
        c.perform (.write (.prefixed bs w)) = (.error (.prefixOverflow bs.length w.max), c) := by
  intro b
  obtain ⟨hanswers, hbytes, hread⟩ := run_writing (b := empty e) rfl xs
  have hspelt : b.bytes = spelt e xs := hbytes.trans (List.nil_append _)
  refine ⟨hanswers, yields_of_unread ?_, yields_of_unread ?_, fun c bs w hw => ?_⟩
  · have hpos : (b.setEndian e).readPos = 0 := hread
    rw [unread, hpos, List.drop_zero]
    exact hspelt
  · exact hspelt
  · simp [perform, put, writePrefixed, Nat.not_le.mpr hw]

/-- A switch between two numbers, with a length word and a zero behind them. -/
def crossing : List Entry := [.number 2 258 (by decide), .setEndian .little,
  .signed 4 (-2) (by decide), .prefixed [104, 105] .two (by decide), .cstring [110] (by decide)]

/-- Four entries are read back though the byte order is switched among them, and 256 bytes are
refused behind a length of one byte. -/
theorem replayed_across_a_switch :
    ((empty .big).run (crossing.map Entry.writing)).bytes =
        [1, 2, 254, 255, 255, 255, 2, 0, 104, 105, 110, 0] ∧
      (ofBytes [1, 2, 254, 255, 255, 255, 2, 0, 104, 105, 110, 0] .big).Yields crossing ∧
      LengthWidth.one.max < (List.replicate 256 (0 : UInt8)).length ∧
      (empty .big).perform (.write (.prefixed (List.replicate 256 0) .one)) =
        (.error (.prefixOverflow 256 255), empty .big) := by
  obtain ⟨-, -, hyields, hrefused⟩ := replayed .big crossing
  have hlong : LengthWidth.one.max < (List.replicate 256 (0 : UInt8)).length := by
    rw [List.length_replicate]
    decide
  have hoverflow := hrefused (empty .big) (List.replicate 256 0) .one hlong
  rw [List.length_replicate] at hoverflow
  exact ⟨by decide, hyields, hlong, hoverflow⟩

end Buffer

end Intercept
