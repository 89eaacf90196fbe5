/-!
# Intercept.Bytes

Byte strings and fixed-width words.

* `Bytes` is a list of bytes, and `Bytes.ofText` the UTF-8 bytes of a text;
* `Endian.encode w n` are the `w` bytes of a natural, `Endian.decode` reads
  them back; bits that do not fit the width are dropped;
* a signed word is carried in two's complement: `toSigned w` reads a natural
  below `wordCount w` as signed, `ofSigned w` writes one.

The two round trips `Endian.decode_encode` and `Endian.encode_decode` are
what every codec of the library stands on.
-/

namespace Intercept

/-- A byte string. -/
abbrev Bytes := List UInt8

/-- The UTF-8 bytes of a text. -/
def Bytes.ofText (s : String) : Bytes := s.toUTF8.toList

/-- The text that these bytes spell in UTF-8, if they do. -/
def Bytes.toText? (b : Bytes) : Option String := String.fromUTF8? ⟨b.toArray⟩

/-! ## Words, least significant byte first -/

/-- The `w` low bytes of `n`, least significant first. -/
def toLittle : Nat → Nat → Bytes
  | 0, _ => []
  | w + 1, n => UInt8.ofNat (n % 256) :: toLittle w (n / 256)

/-- How many words of `w` bytes there are. -/
def wordCount (w : Nat) : Nat := Nat.pow 256 w

/-- The natural whose bytes, least significant first, are these. -/
def ofLittle : Bytes → Nat
  | [] => 0
  | b :: bs => b.toNat + 256 * ofLittle bs

/-- A number takes the bytes that it is given. -/
@[simp] theorem length_toLittle (w n : Nat) : (toLittle w n).length = w := by
  induction w generalizing n with
  | zero => rfl
  | succ w ih => simp [toLittle, ih]

/-- One byte more says 256 times as many numbers. -/
theorem wordCount_succ (w : Nat) : wordCount (w + 1) = 256 * wordCount w := Nat.mul_comm _ _

/-- A number is read again, as far as its bytes can say it. -/
theorem ofLittle_toLittle (w n : Nat) : ofLittle (toLittle w n) = n % wordCount w := by
  induction w generalizing n with
  | zero => exact (Nat.mod_one n).symm
  | succ w ih =>
    have h : (UInt8.ofNat (n % 256)).toNat = n % 256 :=
      UInt8.toNat_ofNat_of_lt' (Nat.mod_lt n (by decide))
    rw [toLittle, ofLittle, ih, h, wordCount_succ, Nat.mod_mul]

/-- Bytes say no number that does not fit them. -/
theorem ofLittle_lt (bs : Bytes) : ofLittle bs < wordCount bs.length := by
  induction bs with
  | nil => exact Nat.one_pos
  | cons b bs ih =>
    have hb : b.toNat < 256 := b.toNat_lt
    rw [ofLittle, List.length_cons, wordCount_succ]
    omega

/-- Bytes are written again as they were read. -/
theorem toLittle_ofLittle (bs : Bytes) : toLittle bs.length (ofLittle bs) = bs := by
  induction bs with
  | nil => rfl
  | cons b bs ih =>
    have hb : b.toNat < 256 := b.toNat_lt
    have hlow : (b.toNat + 256 * ofLittle bs) % 256 = b.toNat := by omega
    have hhigh : (b.toNat + 256 * ofLittle bs) / 256 = ofLittle bs := by omega
    rw [List.length_cons, toLittle, ofLittle, hlow, hhigh, ih, UInt8.ofNat_toNat]

/-! ## Words in either byte order -/

/-- Byte order of a multi-byte word. -/
inductive Endian where
  | little
  | big
deriving DecidableEq, Repr, Inhabited

/-- The `w` low bytes of `n` in this order. -/
def Endian.encode (e : Endian) (w n : Nat) : Bytes :=
  match e with
  | .little => toLittle w n
  | .big => (toLittle w n).reverse

/-- The natural that these bytes spell in this order. -/
def Endian.decode (e : Endian) (bs : Bytes) : Nat :=
  match e with
  | .little => ofLittle bs
  | .big => ofLittle bs.reverse

/-- A number takes the bytes that it is given in either order. -/
@[simp] theorem Endian.length_encode (e : Endian) (w n : Nat) : (e.encode w n).length = w := by
  cases e <;> simp [Endian.encode]

/-- Bytes say no number that does not fit them, in either order. -/
theorem Endian.decode_lt (e : Endian) (bs : Bytes) : e.decode bs < wordCount bs.length := by
  cases e
  · exact ofLittle_lt bs
  · rw [← List.length_reverse]
    exact ofLittle_lt bs.reverse

/-- Reading a written word gives the natural modulo the width. -/
theorem Endian.decode_encode (e : Endian) (w n : Nat) :
    e.decode (e.encode w n) = n % wordCount w := by
  cases e <;> simp [Endian.encode, Endian.decode, ofLittle_toLittle]

/-- Writing a read word gives its bytes. -/
theorem Endian.encode_decode (e : Endian) (bs : Bytes) : e.encode bs.length (e.decode bs) = bs := by
  cases e
  · exact toLittle_ofLittle bs
  · have h := toLittle_ofLittle bs.reverse
    rw [List.length_reverse] at h
    simp [Endian.encode, Endian.decode, h]

/-! ## Words at an offset -/

/-- The little-endian word of `w` bytes at an offset; past the end it has fewer bytes. -/
def Bytes.wordAt (b : Bytes) (offset w : Nat) : Nat := ofLittle ((b.drop offset).take w)

theorem Bytes.wordAt_byte {c : UInt8} {b : Bytes} : Bytes.wordAt (c :: b) 0 1 = c.toNat := by
  simp [wordAt, ofLittle]

theorem Bytes.wordAt_behind_byte {c : UInt8} {b : Bytes} {offset w : Nat} :
    Bytes.wordAt (c :: b) (offset + 1) w = b.wordAt offset w := by
  simp [wordAt]

/-- A word behind some bytes is one of what follows. -/
theorem Bytes.wordAt_append_right {front b : Bytes} {offset w : Nat} (h : front.length ≤ offset) :
    Bytes.wordAt (front ++ b) offset w = b.wordAt (offset - front.length) w := by
  rw [wordAt, wordAt, List.drop_append, List.drop_of_length_le h, List.nil_append]

/-- A number that fits is the word that stands there. -/
theorem Bytes.wordAt_toLittle {w n : Nat} {b : Bytes} (h : n < wordCount w) :
    Bytes.wordAt (toLittle w n ++ b) 0 w = n := by
  rw [wordAt, List.drop_zero, List.take_left' (length_toLittle w n), ofLittle_toLittle,
    Nat.mod_eq_of_lt h]

/-- A word is no number that does not fit it. -/
theorem Bytes.wordAt_lt (b : Bytes) (offset w : Nat) : b.wordAt offset w < wordCount w :=
  Nat.lt_of_lt_of_le (ofLittle_lt _) (Nat.pow_le_pow_right (by decide) (List.length_take_le _ _))

/-- The bytes of a word are those that stand there. -/
theorem Bytes.toLittle_wordAt {b : Bytes} {offset w : Nat} (h : offset + w ≤ b.length) :
    toLittle w (b.wordAt offset w) = (b.drop offset).take w := by
  have hlength : ((b.drop offset).take w).length = w :=
    List.length_take_of_le (by rw [List.length_drop]; omega)
  have hword := toLittle_ofLittle ((b.drop offset).take w)
  rwa [hlength] at hword

/-! ## Signed words -/

/-- The two's complement reading of a `w`-byte word. -/
def toSigned (w n : Nat) : Int := Int.bmod n (wordCount w)

/-- The `w`-byte word that carries a signed number in two's complement. -/
def ofSigned (w : Nat) (i : Int) : Nat := (i % wordCount w).toNat

/-- A signed word is read from its bits. -/
theorem toSigned_toUInt32 (i : Int32) : toSigned 4 i.toUInt32.toNat = i.toInt :=
  (BitVec.toInt_eq_toNat_bmod i.toBitVec).symm

/-! ## Pieces between separators -/

/-- The pieces between the separators, in order; `n` separators make `n + 1` pieces. -/
def Bytes.splitBy (sep : UInt8) : Bytes → List Bytes
  | [] => [[]]
  | b :: bs =>
    match Bytes.splitBy sep bs with
    | [] => [[b]]
    | piece :: pieces => if b = sep then [] :: piece :: pieces else (b :: piece) :: pieces

/-- The pieces with one separator between each two of them. -/
def Bytes.joinBy (sep : UInt8) : List Bytes → Bytes
  | [] => []
  | [piece] => piece
  | piece :: pieces => piece ++ sep :: Bytes.joinBy sep pieces

end Intercept
