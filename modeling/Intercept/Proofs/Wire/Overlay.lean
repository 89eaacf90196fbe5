import Intercept.Proofs.Wire.Cursor

/-!
# Intercept.Proofs.Wire.Overlay

What is in a buffer after any operations.

```
Stroke                     bytes put down at a place
lastOver strokes i         the last of the strokes that cover place i
laid initial strokes i     the byte that this one put there, else the initial one, else zero
Track                      where the next stroke goes, its byte order, and the strokes so far
ops.foldl Track.follow t   the same after operations, told from the operations alone
```

A write is one stroke at the write cursor: it takes the places that it covers
and leaves all others as they were, and what the buffer grows by is zero
(`getD_writeBytes`).  So each operation keeps the buffer on its track
(`OnTrack.perform`), and the bytes after a run can be told without running it
(`Origin.overlaid`).
-/

namespace Intercept

namespace Buffer

/-! ## strokes -/

/-- Bytes put down at a place. -/
structure Stroke where
  start : Nat
  bytes : Bytes
deriving DecidableEq, Repr

/-- The place behind a stroke. -/
def Stroke.stop (s : Stroke) : Nat := s.start + s.bytes.length

/-- Whether a stroke puts a byte at this place. -/
def Stroke.covers (s : Stroke) (i : Nat) : Bool := s.start ≤ i ∧ i < s.stop

/-- The byte that a stroke puts at a place that it covers. -/
def Stroke.byteAt (s : Stroke) (i : Nat) : UInt8 := s.bytes.getD (i - s.start) 0

/-- The last stroke over a place. -/
def lastOver (strokes : List Stroke) (i : Nat) : Option Stroke := strokes.reverse.find? (·.covers i)

/-- The byte of the last stroke over a place; where there is none the initial byte, or zero. -/
def laid (initial : Bytes) (strokes : List Stroke) (i : Nat) : UInt8 :=
  match lastOver strokes i with
  | some s => s.byteAt i
  | none => initial.getD i 0

/-- How far the strokes go, or the initial bytes if these go further. -/
def extent (initial : Bytes) (strokes : List Stroke) : Nat :=
  (strokes.map Stroke.stop).foldl max initial.length

variable {initial : Bytes} {strokes : List Stroke}

/-- The last stroke is over the places that it covers, and the others are as before. -/
theorem laid_concat (s : Stroke) (i : Nat) :
    laid initial (strokes ++ [s]) i =
      if s.covers i then s.byteAt i else laid initial strokes i := by
  by_cases h : s.covers i <;> simp [laid, lastOver, h]

/-- The bytes reach as far as the farthest stroke. -/
theorem extent_concat (s : Stroke) :
    extent initial (strokes ++ [s]) = max (extent initial strokes) s.stop := by
  simp [extent]

/-- A write is a stroke at the write cursor. -/
theorem getD_writeBytes (b : Buffer) (bs : Bytes) (i : Nat) :
    (b.writeBytes bs).bytes.getD i 0 =
      if (Stroke.mk b.writePos bs).covers i then (Stroke.mk b.writePos bs).byteAt i
        else b.bytes.getD i 0 := by
  -- in front of the stroke are old bytes and then the gap, behind it old bytes
  simp only [writeBytes, Stroke.covers, Stroke.byteAt, Stroke.stop, length,
    List.getD_eq_getElem?_getD,
    List.getElem?_append, List.length_append, List.length_take, List.length_replicate,
    List.getElem?_take, List.getElem?_replicate, List.getElem?_drop]
  grind

/-! ## the track of a run -/

/-- Where the next stroke goes, its byte order, and the strokes so far. -/
structure Track where
  pos : Nat
  endian : Endian
  strokes : List Stroke

/-- The track after an operation. -/
def Track.follow (t : Track) : Operation → Track
  | .read _ => t
  | .write x =>
    match x.spell t.endian with
    | some bs => { t with pos := t.pos + bs.length, strokes := t.strokes ++ [⟨t.pos, bs⟩] }
    | none => t
  | .seekWrite pos => { t with pos }
  | .setEndian e => { t with endian := e }

/-- How a buffer comes to be. -/
inductive Origin where
  | empty (e : Endian)
  | ofBytes (bs : Bytes) (e : Endian)

/-- The bytes that a buffer has from the start. -/
def Origin.bytes : Origin → Bytes
  | .empty _ => []
  | .ofBytes bs _ => bs

/-- A buffer as it comes to be. -/
def Origin.buffer : Origin → Buffer
  | .empty e => .empty e
  | .ofBytes bs e => .ofBytes bs e

/-- No strokes yet, and the next one goes behind the bytes from the start. -/
def Origin.track : Origin → Track
  | .empty e => ⟨0, e, []⟩
  | .ofBytes bs e => ⟨bs.length, e, []⟩

/-- The buffer is where the track says and has what the strokes laid. -/
structure OnTrack (initial : Bytes) (t : Track) (b : Buffer) : Prop where
  readPos_le : b.readPos ≤ b.length
  writePos_eq : b.writePos = t.pos
  endian_eq : b.endian = t.endian
  length_eq : b.length = extent initial t.strokes
  getD_eq : ∀ i, b.bytes.getD i 0 = laid initial t.strokes i

variable {t : Track} {b : Buffer}

/-- A buffer is on its track at first. -/
theorem Origin.onTrack (o : Origin) : OnTrack o.bytes o.track o.buffer := by
  cases o <;> exact ⟨Nat.zero_le _, rfl, rfl, rfl, fun _ => rfl⟩

/-- Writing is one stroke more. -/
theorem OnTrack.writeBytes (h : OnTrack initial t b) (bs : Bytes) :
    OnTrack initial { t with pos := t.pos + bs.length, strokes := t.strokes ++ [⟨t.pos, bs⟩] }
      (b.writeBytes bs) := by
  constructor
  case readPos_le =>
    have hread : (b.writeBytes bs).readPos = b.readPos := rfl
    have hwithin := h.readPos_le
    rw [hread, length_writeBytes]
    omega
  case writePos_eq => simp [Buffer.writeBytes, h.writePos_eq]
  case endian_eq => exact h.endian_eq
  case length_eq => rw [length_writeBytes, extent_concat, h.length_eq, h.writePos_eq, Stroke.stop]
  case getD_eq =>
    intro i
    rw [getD_writeBytes, laid_concat, h.getD_eq, h.writePos_eq]

/-- Every operation keeps the buffer on its track. -/
theorem OnTrack.perform (h : OnTrack initial t b) (op : Operation) :
    OnTrack initial (t.follow op) (b.perform op).2 := by
  cases op with
  | read r =>
      obtain ⟨pos, hpos, hask⟩ := ask_within h.readPos_le r
      rw [Buffer.perform, hask]
      exact ⟨hpos, h.writePos_eq, h.endian_eq, h.length_eq, h.getD_eq⟩
  | write x =>
      rw [Buffer.perform, Track.follow]
      cases hspell : x.spell t.endian with
      | some bs =>
          rw [put_of_spell (h.endian_eq ▸ hspell)]
          exact h.writeBytes bs
      | none =>
          obtain ⟨bs, w, -, -, hput⟩ := put_of_not_spell (h.endian_eq ▸ hspell)
          rw [hput]
          exact h
  | seekWrite pos => exact ⟨h.readPos_le, rfl, h.endian_eq, h.length_eq, h.getD_eq⟩
  | setEndian e => exact ⟨h.readPos_le, h.writePos_eq, rfl, h.length_eq, h.getD_eq⟩

/-- Any operations keep a buffer on its track. -/
theorem OnTrack.run (h : OnTrack initial t b) (ops : List Operation) :
    OnTrack initial (ops.foldl Track.follow t) (b.run ops) := by
  induction ops generalizing t b with
  | nil => exact h
  | cons op ops ih => exact ih (h.perform op)

/-- A buffer on its track has the bytes that were laid there. -/
theorem OnTrack.bytes_eq (h : OnTrack initial t b) :
    b.bytes = (List.range b.length).map (laid initial t.strokes) := by
  refine List.ext_getElem (by simp [length]) fun i hi _ => ?_
  rw [List.getElem_map, List.getElem_range, ← h.getD_eq, List.getD_eq_getElem?_getD,
    List.getElem?_eq_getElem hi, Option.getD_some]

/-- After any operations on a new buffer, the read cursor is within the buffer; a reading changes
nothing else, and a writing leaves it where it is.  The buffer goes as far as its initial bytes and
the strokes of the run, and in each place it has the byte of the last stroke over it, else the
initial byte, else zero. -/
theorem Origin.overlaid (o : Origin) (ops : List Operation) :
    let b := o.buffer.run ops
    let t := ops.foldl Track.follow o.track
    b.readPos ≤ b.length ∧
      (∀ r, ∃ pos ≤ b.length, (b.perform (.read r)).2 = { b with readPos := pos }) ∧
      (∀ x, (b.perform (.write x)).2.readPos = b.readPos) ∧
      b.writePos = t.pos ∧ b.endian = t.endian ∧
      b.length = (t.strokes.map Stroke.stop).foldl max o.bytes.length ∧
      b.bytes = (List.range b.length).map (laid o.bytes t.strokes) := by
  intro b t
  have h : OnTrack o.bytes t b := o.onTrack.run ops
  exact ⟨h.readPos_le, ask_within h.readPos_le, readPos_put b, h.writePos_eq, h.endian_eq,
    h.length_eq, h.bytes_eq⟩

/-- A leap past the end leaves zeros behind it, and a way back lays one stroke over another. -/
example : ((Origin.ofBytes [1, 2, 3] .big).buffer.run [.seekWrite 5, .write (.number 2 258),
    .read (.number 2), .seekWrite 1, .write (.bytes [8, 9]), .seekWrite 8, .write (.bytes [])]) =
    ⟨[1, 8, 9, 0, 0, 1, 2, 0], 2, 8, .big⟩ := by decide

end Buffer

end Intercept
