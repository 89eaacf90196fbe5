import Intercept.Wire.Buffer

/-!
# Intercept.Proofs.Wire.Cursor

What can be done to a buffer, and what each operation does.

```
b.ask r          what a reading answers, and the buffer after it
b.put x          the same for a writing
b.perform op     the same for any operation
b.run ops        the buffer after operations, one behind the other
b.skip n         the read cursor, moved on over n bytes
```

1. A reading answers from the unread bytes and moves the read cursor, or fails
   in one of two ways (`outcome_ask`); it stays within the buffer, and nothing
   else changes (`ask_within`).
2. A writing puts down the bytes that it spells in the byte order of the buffer
   (`put_of_spell`), or spells nothing and is refused (`put_of_not_spell`).
3. A reading that fails leaves the buffer as it was, but for one case: where a
   length word can be read and the bytes that it promises cannot, the word stays
   taken (`unmoved_but_for_length_word`).
-/

namespace Intercept

namespace Buffer

/-! ## operations -/

/-- What an operation answers with. -/
inductive Answer where
  | done
  | number (n : Nat)
  | signed (i : Int)
  | bytes (bs : Bytes)
deriving DecidableEq, Repr

/-- What can be asked of the bytes behind the read cursor, and the choice of the first of them. -/
inductive Reading where
  /-- An unsigned number of `w` bytes, or the bits of a float of that width. -/
  | number (w : Nat)
  | signed (w : Nat)
  | bytes (n : Nat)
  | remaining
  | peek (n : Nat)
  | prefixed (w : LengthWidth)
  | cstring
  | seek (pos : Nat)
deriving DecidableEq, Repr

/-- What can be put down at the write cursor. -/
inductive Writing where
  /-- An unsigned number in `w` bytes, or the bits of a float of that width. -/
  | number (w n : Nat)
  | signed (w : Nat) (i : Int)
  | bytes (bs : Bytes)
  | prefixed (bs : Bytes) (w : LengthWidth)
  | cstring (bs : Bytes)
deriving DecidableEq, Repr

/-- Everything that can be done to a buffer. -/
inductive Operation where
  | read (r : Reading)
  | write (x : Writing)
  | seekWrite (pos : Nat)
  | setEndian (e : Endian)
deriving DecidableEq, Repr

/-- What a reading answers, and the buffer after it. -/
def ask (b : Buffer) : Reading → Except CodecError Answer × Buffer
  | .number w => ((b.readWord w).1.map .number, (b.readWord w).2)
  | .signed w => ((b.readSigned w).1.map .signed, (b.readSigned w).2)
  | .bytes n => ((b.readBytes n).1.map .bytes, (b.readBytes n).2)
  | .remaining => (.ok (.bytes b.readRemaining.1), b.readRemaining.2)
  | .peek n => (.ok (.bytes (b.peek n)), b)
  | .prefixed w => ((b.readPrefixed w).1.map .bytes, (b.readPrefixed w).2)
  | .cstring => (b.readCString.1.map .bytes, b.readCString.2)
  | .seek pos =>
    match b.seekRead pos with
    | .ok b' => (.ok .done, b')
    | .error err => (.error err, b)

/-- What a writing answers, and the buffer after it. -/
def put (b : Buffer) : Writing → Except CodecError Answer × Buffer
  | .number w n => (.ok .done, b.writeWord w n)
  | .signed w i => (.ok .done, b.writeSigned w i)
  | .bytes bs => (.ok .done, b.writeBytes bs)
  | .prefixed bs w =>
    match b.writePrefixed bs w with
    | .ok b' => (.ok .done, b')
    | .error err => (.error err, b)
  | .cstring bs => (.ok .done, b.writeCString bs)

/-- What an operation answers, and the buffer after it. -/
def perform (b : Buffer) : Operation → Except CodecError Answer × Buffer
  | .read r => b.ask r
  | .write x => b.put x
  | .seekWrite pos => (.ok .done, b.seekWrite pos)
  | .setEndian e => (.ok .done, b.setEndian e)

/-- The buffer after operations. -/
def run (b : Buffer) : List Operation → Buffer
  | [] => b
  | op :: ops => (b.perform op).2.run ops

/-- What operations answer, one behind the other. -/
def answers (b : Buffer) : List Operation → List (Except CodecError Answer)
  | [] => []
  | op :: ops => (b.perform op).1 :: (b.perform op).2.answers ops

variable {b : Buffer} {r : Reading} {x : Writing} {err : CodecError}

/-! ## reading -/

/-- The read cursor, moved on over `n` bytes. -/
def skip (b : Buffer) (n : Nat) : Buffer := { b with readPos := b.readPos + n }

/-- As many bytes are unread as remain. -/
@[simp] theorem length_unread (b : Buffer) : b.unread.length = b.remaining := by
  simp [unread, remaining, length]

@[simp] theorem endian_skip (b : Buffer) (n : Nat) : (b.skip n).endian = b.endian := rfl

/-- What is skipped is read. -/
@[simp] theorem unread_skip (b : Buffer) (n : Nat) : (b.skip n).unread = b.unread.drop n := by
  simp [skip, unread]

/-- So much less remains. -/
@[simp] theorem remaining_skip (b : Buffer) (n : Nat) :
    (b.skip n).remaining = b.remaining - n := by
  rw [← length_unread, unread_skip, List.length_drop, length_unread]

theorem skip_skip (b : Buffer) (n k : Nat) : (b.skip n).skip k = b.skip (n + k) := by
  simp [skip, Nat.add_assoc]

/-- Bytes are read if so many remain, and otherwise the cursor stays. -/
theorem readBytes_eq (b : Buffer) (n : Nat) :
    b.readBytes n = if n ≤ b.remaining then (.ok (b.unread.take n), b.skip n)
      else (.error (.eof n b.remaining), b) := by
  by_cases h : n ≤ b.remaining
  · have htaken : b.remaining - (b.remaining - n) = n := by omega
    simp [readBytes, read, Reader.take, h, skip, htaken]
  · simp [readBytes, read, Reader.take, h]

/-- So is a number, in the byte order of the buffer. -/
theorem readWord_eq (b : Buffer) (w : Nat) :
    b.readWord w = if w ≤ b.remaining then (.ok (b.endian.decode (b.unread.take w)), b.skip w)
      else (.error (.eof w b.remaining), b) := by
  by_cases h : w ≤ b.remaining
  · have htaken : b.remaining - (b.remaining - w) = w := by omega
    simp [readWord, read, Reader.word, Reader.take, h, skip, htaken]
  · simp [readWord, read, Reader.word, Reader.take, h]

theorem readSigned_eq (b : Buffer) (w : Nat) :
    b.readSigned w = if w ≤ b.remaining then
        (.ok (toSigned w (b.endian.decode (b.unread.take w))), b.skip w)
      else (.error (.eof w b.remaining), b) := by
  rw [readSigned, readWord_eq]
  by_cases h : w ≤ b.remaining <;> simp [h]

/-- The number that a length word says. -/
def declared (b : Buffer) (w : LengthWidth) : Nat := b.endian.decode (b.unread.take w.bytes)

/-- The length word is taken first, and then the bytes that it promises are read or not. -/
theorem readPrefixed_eq (b : Buffer) (w : LengthWidth) :
    b.readPrefixed w = if w.bytes ≤ b.remaining then (b.skip w.bytes).readBytes (b.declared w)
      else (.error (.eof w.bytes b.remaining), b) := by
  rw [readPrefixed, readWord_eq]
  by_cases h : w.bytes ≤ b.remaining <;> simp [h, declared]

/-- The text in front of the next zero. -/
def nextText (b : Buffer) : Bytes := b.unread.takeWhile (· ≠ 0)

/-- A text is read up to the next zero, which is taken with it, if there is one. -/
theorem readCString_eq (b : Buffer) :
    b.readCString = if 0 ∈ b.unread then (.ok b.nextText, b.skip (b.nextText.length + 1))
      else (.error (.eof (b.remaining + 1) b.remaining), b) := by
  simp only [readCString, nextText, skip, length_unread, Nat.add_assoc]

/-- The next text is what stands before the first zero. -/
theorem nextText_eq {text rest : Bytes} (h : b.unread = text ++ 0 :: rest) (htext : 0 ∉ text) :
    b.nextText = text := by
  have hall : ∀ c ∈ text, decide (c ≠ 0) = true := fun c hc => by
    simpa using ne_of_mem_of_not_mem hc htext
  rw [nextText, h, List.takeWhile_append_of_pos hall]
  simp

/-- It and its zero are still to be read. -/
theorem length_nextText_lt (h : 0 ∈ b.unread) : b.nextText.length < b.remaining := by
  obtain ⟨text, rest, hunread, htext⟩ := List.eq_append_cons_of_mem h
  rw [nextText_eq hunread htext, ← length_unread, hunread]
  simp

/-- The cursor may be put anywhere within the bytes, and at their end. -/
theorem ask_seek (b : Buffer) (pos : Nat) :
    b.ask (.seek pos) = if pos ≤ b.length then (.ok .done, { b with readPos := pos })
      else (.error (.eof pos b.length), b) := by
  simp only [ask, seekRead]
  by_cases h : pos ≤ b.length <;> simp [h]

/-- What can come of a reading: it answers and moves the read cursor, or it fails on the spot, or it
fails behind a length word. -/
inductive Outcome (b : Buffer) (r : Reading) : Except CodecError Answer × Buffer → Prop
  | answered (a : Answer) (pos : Nat) (within : b.readPos ≤ b.length → pos ≤ b.length) :
      Outcome b r (.ok a, { b with readPos := pos })
  | refused (err : CodecError) (short : ∀ w, r = .prefixed w → b.remaining < w.bytes) :
      Outcome b r (.error err, b)
  | cutShort (w : LengthWidth) (prefixed : r = .prefixed w) (found : w.bytes ≤ b.remaining) :
      Outcome b r (.error (.eof (b.declared w) (b.remaining - w.bytes)), b.skip w.bytes)

theorem Outcome.skipped {n : Nat} (a : Answer) (hn : n ≤ b.remaining) :
    Outcome b r (.ok a, b.skip n) :=
  .answered a (b.readPos + n) fun hread => by
    rw [remaining] at hn
    omega

/-- A reading answers from the unread bytes and takes what it reads, or fails in one of two ways. -/
theorem outcome_ask (b : Buffer) (r : Reading) : Outcome b r (b.ask r) := by
  cases r with
  | number w =>
      by_cases hw : w ≤ b.remaining
      · rw [ask, readWord_eq, if_pos hw]
        exact .skipped _ hw
      · rw [ask, readWord_eq, if_neg hw]
        exact .refused _ nofun
  | signed w =>
      by_cases hw : w ≤ b.remaining
      · rw [ask, readSigned_eq, if_pos hw]
        exact .skipped _ hw
      · rw [ask, readSigned_eq, if_neg hw]
        exact .refused _ nofun
  | bytes n =>
      by_cases hn : n ≤ b.remaining
      · rw [ask, readBytes_eq, if_pos hn]
        exact .skipped _ hn
      · rw [ask, readBytes_eq, if_neg hn]
        exact .refused _ nofun
  | remaining => exact .skipped _ (Nat.le_refl b.remaining)
  | peek n => exact .answered _ b.readPos id
  | prefixed w =>
      by_cases hw : w.bytes ≤ b.remaining
      · rw [ask, readPrefixed_eq, if_pos hw, readBytes_eq, remaining_skip]
        by_cases hbody : b.declared w ≤ b.remaining - w.bytes
        · rw [if_pos hbody, skip_skip]
          exact .skipped _ (by omega)
        · rw [if_neg hbody]
          exact .cutShort w rfl hw
      · rw [ask, readPrefixed_eq, if_neg hw]
        exact .refused _ (by simpa using hw)
  | cstring =>
      by_cases hzero : 0 ∈ b.unread
      · rw [ask, readCString_eq, if_pos hzero]
        exact .skipped _ (length_nextText_lt hzero)
      · rw [ask, readCString_eq, if_neg hzero]
        exact .refused _ nofun
  | seek pos =>
      rw [ask_seek]
      by_cases hpos : pos ≤ b.length
      · rw [if_pos hpos]
        exact .answered _ pos fun _ => hpos
      · rw [if_neg hpos]
        exact .refused _ nofun

/-- A reading changes the read cursor alone and leaves it within the buffer. -/
theorem ask_within (h : b.readPos ≤ b.length) (r : Reading) :
    ∃ pos ≤ b.length, (b.ask r).2 = { b with readPos := pos } := by
  have houtcome := outcome_ask b r
  generalize b.ask r = out at houtcome ⊢
  cases houtcome with
  | answered a pos within => exact ⟨pos, within h, rfl⟩
  | refused err short => exact ⟨b.readPos, h, rfl⟩
  | cutShort w prefixed found =>
      rw [remaining] at found
      exact ⟨b.readPos + w.bytes, by omega, rfl⟩

/-! ## writing -/

/-- The bytes that a writing puts down, if it can be written. -/
def Writing.spell (e : Endian) : Writing → Option Bytes
  | .number w n => some (e.encode w n)
  | .signed w i => some (e.encode w (ofSigned w i))
  | .bytes bs => some bs
  | .prefixed bs w => if bs.length ≤ w.max then some (e.encode w.bytes bs.length ++ bs) else none
  | .cstring bs => some (bs ++ [0])

/-- A buffer grows as far as is written, and never shrinks. -/
@[simp] theorem length_writeBytes (b : Buffer) (bs : Bytes) :
    (b.writeBytes bs).length = max b.length (b.writePos + bs.length) := by
  simp only [length, writeBytes, List.length_append, List.length_take, List.length_replicate,
    List.length_drop]
  omega

/-- Two pieces one behind the other are one piece. -/
theorem writeBytes_writeBytes (b : Buffer) (bs cs : Bytes) :
    (b.writeBytes bs).writeBytes cs = b.writeBytes (bs ++ cs) := by
  let front := b.bytes.take b.writePos ++ List.replicate (b.writePos - b.length) 0 ++ bs
  have hfront : front.length = b.writePos + bs.length := by
    simp only [front, length, List.length_append, List.length_take, List.length_replicate]
    omega
  have hbytes : (b.writeBytes bs).bytes = front ++ b.bytes.drop (b.writePos + bs.length) := rfl
  have hgap : b.writePos + bs.length - (b.writeBytes bs).length = 0 := by
    rw [length_writeBytes]
    omega
  simp only [writeBytes] at hbytes hgap ⊢
  rw [hbytes, hgap, List.take_left' hfront, List.drop_append, List.drop_of_length_le (by omega),
    hfront]
  simp [front, List.drop_drop, Nat.add_assoc]

/-- A writing puts down the bytes that it spells. -/
theorem put_of_spell {bs : Bytes} (h : x.spell b.endian = some bs) :
    b.put x = (.ok .done, b.writeBytes bs) := by
  cases x with
  | number w n | signed w i | bytes cs =>
      cases h
      rfl
  | prefixed cs w =>
      by_cases hfits : cs.length ≤ w.max
      · simp only [Writing.spell, if_pos hfits, Option.some.injEq] at h
        simp [← h, put, writePrefixed, hfits, writeWord, writeBytes_writeBytes]
      · simp [Writing.spell, hfits] at h
  | cstring cs =>
      cases h
      have hzero : b.endian.encode 1 0 = [0] := by cases b.endian <;> rfl
      rw [put, writeCString, writeWord, ← hzero, ← writeBytes_writeBytes]
      rfl

/-- A writing that cannot be written says how much its length word can count to. -/
theorem put_of_not_spell (h : x.spell b.endian = none) :
    ∃ bs w, x = .prefixed bs w ∧ w.max < bs.length ∧
      b.put x = (.error (.prefixOverflow bs.length w.max), b) := by
  cases x with
  | number w n | signed w i | bytes cs | cstring cs => cases h
  | prefixed bs w =>
      by_cases hfits : bs.length ≤ w.max
      · simp [Writing.spell, hfits] at h
      · exact ⟨bs, w, rfl, by omega, by simp [put, writePrefixed, hfits]⟩

/-- A writing leaves the read cursor where it is. -/
theorem readPos_put (b : Buffer) (x : Writing) : (b.put x).2.readPos = b.readPos := by
  cases h : x.spell b.endian with
  | some bs => rw [put_of_spell h, writeBytes]
  | none =>
      obtain ⟨bs, w, -, -, hput⟩ := put_of_not_spell h
      rw [hput]

/-! ## readings that fail -/

/-- A reading that fails leaves the bytes, both cursors and the byte order as they were, unless it
is a prefixed one whose length word can be read.  That one misses the bytes behind the word, and its
read cursor stays between the two. -/
theorem unmoved_but_for_length_word (h : (b.ask r).1 = .error err) :
    ((∀ w, r = .prefixed w → b.remaining < w.bytes) → (b.ask r).2 = b) ∧
      ∀ w, r = .prefixed w → w.bytes ≤ b.remaining →
        (b.ask r).2 = { b with readPos := b.readPos + w.bytes } ∧
          err = .eof (b.declared w) (b.remaining - w.bytes) := by
  have houtcome := outcome_ask b r
  generalize b.ask r = out at h houtcome ⊢
  cases houtcome with
  | answered a pos within => cases h
  | refused err short =>
      refine ⟨fun _ => rfl, fun w hr hw => ?_⟩
      exact absurd (short w hr) (Nat.not_lt.mpr hw)
  | cutShort w hr hw =>
      cases h
      refine ⟨fun hshort => absurd (hshort w hr) (Nat.not_lt.mpr hw), fun w' hr' _ => ?_⟩
      cases hr.symm.trans hr'
      exact ⟨rfl, rfl⟩

/-- A word that is too wide for what is left, and a length word with less behind it than it says. -/
theorem unmoved_but_for_length_word_at_end :
    ((ofBytes [1, 2, 3] .little).ask (.number 4)).1 = .error (.eof 4 3) ∧
      ((ofBytes [1, 2, 3] .little).ask (.number 4)).2 = ofBytes [1, 2, 3] .little ∧
      ((ofBytes [0, 5, 97] .big).ask (.prefixed .two)).1 = .error (.eof 5 1) ∧
      ((ofBytes [0, 5, 97] .big).ask (.prefixed .two)).2 = ⟨[0, 5, 97], 2, 3, .big⟩ := by
  have hword : ((ofBytes [1, 2, 3] .little).ask (.number 4)).1 = .error (.eof 4 3) := rfl
  have hbody : ((ofBytes [0, 5, 97] .big).ask (.prefixed .two)).1 = .error (.eof 5 1) := rfl
  have hwidth : LengthWidth.two.bytes ≤ (ofBytes [0, 5, 97] .big).remaining := by decide
  exact ⟨hword, (unmoved_but_for_length_word hword).1 (fun w hw => by cases hw),
    hbody, ((unmoved_but_for_length_word hbody).2 .two rfl hwidth).1⟩

/-- The length word promises five bytes and one is there: the reading fails, and the word stays
taken. -/
theorem length_word_taken :
    ((ofBytes [5, 97] .little).ask (.prefixed .one)).1 = .error (.eof 5 1) ∧
      (ofBytes [5, 97] .little).readPos = 0 ∧
      ((ofBytes [5, 97] .little).ask (.prefixed .one)).2.readPos = 1 :=
  ⟨rfl, rfl, rfl⟩

end Buffer

end Intercept
