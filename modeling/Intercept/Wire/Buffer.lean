import Intercept.Bytes
import Intercept.Wire.CodecError

/-!
# Intercept.Wire.Buffer

A growable byte buffer with a read and a write cursor that move
independently, and the reader on remaining bytes that its reads share with
the decoders of the wire formats.

1. A read that asks for more than is left fails with `eof` and takes nothing.
2. A write overlays the bytes at the write cursor and grows the buffer to its
   end; a gap in front of it, and one in front of an empty write, is filled
   with zeros.
3. A length-prefixed read is two reads: where the body is missing, the length
   word stays consumed.
-/

namespace Intercept

/-! ## Reading from the front of the remaining bytes -/

/-- A reader takes what it needs from the front of the remaining bytes. -/
abbrev Reader := StateT Bytes (Except CodecError)

namespace Reader

/-- The next `n` bytes. -/
def take (n : Nat) : Reader Bytes := fun rest =>
  if n ≤ rest.length then .ok (rest.take n, rest.drop n) else .error (.eof n rest.length)

/-- The next word of `w` bytes. -/
def word (e : Endian) (w : Nat) : Reader Nat := fun rest =>
  match take w rest with
  | .ok (raw, rest) => .ok (e.decode raw, rest)
  | .error err => .error err

/-- The next byte. -/
def byte : Reader UInt8 := do return UInt8.ofNat (← word .little 1)

/-- The next little-endian word of four bytes. -/
def uint : Reader UInt32 := do return UInt32.ofNat (← word .little 4)

/-- The next little-endian word of four bytes, in two's complement. -/
def int : Reader Int32 := do return (← uint).toInt32

/-- Everything that is left. -/
def remaining : Reader Bytes := fun rest => .ok (rest, [])

end Reader

/-! ## The buffer -/

/-- Width of the length word in front of a byte string. -/
inductive LengthWidth where
  | one
  | two
  | four
deriving DecidableEq, Repr

/-- The bytes of a length word. -/
def LengthWidth.bytes : LengthWidth → Nat
  | .one => 1
  | .two => 2
  | .four => 4

/-- The greatest length that the word can say. -/
def LengthWidth.max (w : LengthWidth) : Nat := wordCount w.bytes - 1

/-- A byte buffer with independent cursors. -/
structure Buffer where
  bytes : Bytes
  readPos : Nat
  writePos : Nat
  endian : Endian
deriving DecidableEq, Repr

namespace Buffer

/-- No bytes, both cursors at the start. -/
def empty (e : Endian) : Buffer := ⟨[], 0, 0, e⟩

/-- These bytes, with the read cursor at the start and the write cursor at the end. -/
def ofBytes (bs : Bytes) (e : Endian) : Buffer := ⟨bs, 0, bs.length, e⟩

/-- The number of bytes. -/
def length (b : Buffer) : Nat := b.bytes.length

/-- The bytes after the read cursor. -/
def unread (b : Buffer) : Bytes := b.bytes.drop b.readPos

/-- How many bytes are left to read. -/
def remaining (b : Buffer) : Nat := b.length - b.readPos

/-! ### Cursors -/

/-- The same bytes in another byte order. -/
def setEndian (b : Buffer) (e : Endian) : Buffer := { b with endian := e }

/-- Move the read cursor; a position past the end is refused. -/
def seekRead (b : Buffer) (pos : Nat) : Except CodecError Buffer :=
  if pos ≤ b.length then .ok { b with readPos := pos } else .error (.eof pos b.length)

/-- Move the write cursor, also past the end. -/
def seekWrite (b : Buffer) (pos : Nat) : Buffer := { b with writePos := pos }

/-! ### Reads

A read answers with its result beside the buffer that follows, so that a
failed one says where it left the cursor. -/

/-- Run a reader on the unread bytes and move the read cursor over what it took. -/
def read (b : Buffer) (r : Reader α) : Except CodecError α × Buffer :=
  match r b.unread with
  | .ok (a, rest) => (.ok a, { b with readPos := b.readPos + (b.unread.length - rest.length) })
  | .error err => (.error err, b)

/-- The next word of `w` bytes, without a sign. -/
def readWord (b : Buffer) (w : Nat) : Except CodecError Nat × Buffer :=
  b.read (Reader.word b.endian w)

/-- The next word of `w` bytes, in two's complement. -/
def readSigned (b : Buffer) (w : Nat) : Except CodecError Int × Buffer :=
  match b.readWord w with
  | (.ok n, b) => (.ok (toSigned w n), b)
  | (.error err, b) => (.error err, b)

/-- The next `n` bytes. -/
def readBytes (b : Buffer) (n : Nat) : Except CodecError Bytes × Buffer := b.read (Reader.take n)

/-- Everything after the read cursor. -/
def readRemaining (b : Buffer) : Bytes × Buffer :=
  (b.unread, { b with readPos := b.readPos + b.remaining })

/-- Up to `n` bytes after the read cursor, without moving it. -/
def peek (b : Buffer) (n : Nat) : Bytes := b.unread.take n

/-- A byte string behind its length. -/
def readPrefixed (b : Buffer) (w : LengthWidth) : Except CodecError Bytes × Buffer :=
  match b.readWord w.bytes with
  | (.ok n, b) => b.readBytes n
  | (.error err, b) => (.error err, b)

/-- The bytes up to the next zero, which is taken and not returned. -/
def readCString (b : Buffer) : Except CodecError Bytes × Buffer :=
  if 0 ∈ b.unread then
    let text := b.unread.takeWhile (· ≠ 0)
    (.ok text, { b with readPos := b.readPos + text.length + 1 })
  else (.error (.eof (b.unread.length + 1) b.unread.length), b)

/-! ### Writes -/

/-- Overlay bytes at the write cursor and move it behind them. -/
def writeBytes (b : Buffer) (bs : Bytes) : Buffer :=
  let stop := b.writePos + bs.length
  let gap := List.replicate (b.writePos - b.length) 0
  { b with bytes := b.bytes.take b.writePos ++ gap ++ bs ++ b.bytes.drop stop, writePos := stop }

/-- Write a word of `w` bytes. -/
def writeWord (b : Buffer) (w n : Nat) : Buffer := b.writeBytes (b.endian.encode w n)

/-- Write a signed word of `w` bytes in two's complement. -/
def writeSigned (b : Buffer) (w : Nat) (i : Int) : Buffer := b.writeWord w (ofSigned w i)

/-- Write a byte string behind its length; one that does not fit the length word is refused. -/
def writePrefixed (b : Buffer) (bs : Bytes) (w : LengthWidth) : Except CodecError Buffer :=
  if bs.length ≤ w.max then .ok ((b.writeWord w.bytes bs.length).writeBytes bs)
  else .error (.prefixOverflow bs.length w.max)

/-- Write bytes and a zero behind them. -/
def writeCString (b : Buffer) (bs : Bytes) : Buffer := (b.writeBytes bs).writeWord 1 0

end Buffer

end Intercept
