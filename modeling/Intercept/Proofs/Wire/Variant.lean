import Mathlib
import Intercept.Proofs.Wire.Reader

/-!
# Intercept.Proofs.Wire.Variant

Value lists as bytes.

```
count | index kind body | index kind body | ...
```

1. A value that `Fits` has one `body`, and the reader of its kind takes just
   that (`Value.readPayload_body`, `Value.of_readPayload`).
2. A list is `laid` out behind any index bytes, one for each value. The reader
   takes every such layout, whatever the indices say (`read_eq_ok`); the writer
   makes the one with the positions as indices (`encode_eq_laid`).
3. The index byte of the value at position `i` stands at `indexAt v i`. Two
   layouts of one list differ in these bytes only, and there the writer has
   `i` (`Restored`).
-/

namespace Intercept

open Reader (bind_eq_ok pure_eq_ok take_eq_ok word_eq_ok word_one_eq_ok readFloat_eq_ok)

namespace Value

variable {x : Value} {s rest : Bytes} {k : Nat}

/-! ## one value -/

/-- The bytes behind the kind byte. -/
def body : Value → Bytes
  | float x => toLittle 4 x.bits.toNat
  | bytes b => toLittle 4 b.length ++ b
  | vec2 x y => toLittle 4 x.bits.toNat ++ toLittle 4 y.bits.toNat
  | vec3 x y z => toLittle 4 x.bits.toNat ++ toLittle 4 y.bits.toNat ++ toLittle 4 z.bits.toNat
  | uint n => toLittle 4 n.toNat
  | int i => toLittle 4 i.toUInt32.toNat

/-- A byte string is no longer than its length word can say. -/
def Fits (x : Value) : Prop := ∀ b, x = bytes b → b.length < 2 ^ 32

/-- A value behind its index and kind. -/
def placed (index : UInt8) (x : Value) : Bytes := index :: x.kind :: x.body

/-- The number of bytes that a value takes behind one another: index, kind and body. -/
def width (x : Value) : Nat := 2 + x.body.length

/-- A value takes its width. -/
theorem length_placed (index : UInt8) (x : Value) : (x.placed index).length = x.width := by
  simp only [placed, width, List.length_cons]
  omega

/-- A value that fits has a body. -/
theorem payload_of_fits (h : x.Fits) : x.payload = .ok x.body := by
  cases x with
  | bytes b =>
      have hlength : b.length ≤ LengthWidth.four.max := Nat.le_pred_of_lt (h b rfl)
      rw [payload, if_pos hlength, body]
  | _ => rfl

/-- A body is read as its value, in front of any rest. -/
theorem readPayload_body (h : x.Fits) :
    readPayload x.kind.toNat (x.body ++ rest) = .ok (x, rest) := by
  cases x with
  | float f => exact bind_eq_ok.mpr ⟨f, rest, readFloat_eq_ok.mpr rfl, rfl⟩
  | bytes b =>
      refine bind_eq_ok.mpr ⟨b.length, b ++ rest, word_eq_ok.mpr ⟨?_, h b rfl⟩, ?_⟩
      · simp [body, Endian.encode]
      · exact bind_eq_ok.mpr ⟨b, rest, take_eq_ok.mpr ⟨rfl, rfl⟩, rfl⟩
  | vec2 f g =>
      refine bind_eq_ok.mpr ⟨f, toLittle 4 g.bits.toNat ++ rest, readFloat_eq_ok.mpr ?_, ?_⟩
      · simp [body]
      · exact bind_eq_ok.mpr ⟨g, rest, readFloat_eq_ok.mpr rfl, rfl⟩
  | vec3 f g i =>
      refine bind_eq_ok.mpr ⟨f, toLittle 4 g.bits.toNat ++ (toLittle 4 i.bits.toNat ++ rest),
        readFloat_eq_ok.mpr ?_, ?_⟩
      · simp [body]
      · refine bind_eq_ok.mpr ⟨g, _, readFloat_eq_ok.mpr rfl, ?_⟩
        exact bind_eq_ok.mpr ⟨i, rest, readFloat_eq_ok.mpr rfl, rfl⟩
  | uint n =>
      refine bind_eq_ok.mpr ⟨n.toNat, rest, word_eq_ok.mpr ⟨rfl, n.toNat_lt⟩, ?_⟩
      rw [UInt32.ofNat_toNat]
      rfl
  | int i =>
      refine bind_eq_ok.mpr ⟨i.toUInt32.toNat, rest, word_eq_ok.mpr ⟨rfl, i.toUInt32.toNat_lt⟩, ?_⟩
      rw [UInt32.ofNat_toNat, Int32.toInt32_toUInt32]
      rfl

/-- What is read as a value of a kind is one of that kind, and its body stood there. -/
theorem of_readPayload (h : readPayload k s = .ok (x, rest)) :
    k = x.kind.toNat ∧ x.Fits ∧ s = x.body ++ rest := by
  unfold readPayload at h
  -- the kinds in the order of their bytes
  split at h
  · simp only [bind_eq_ok, readFloat_eq_ok, pure_eq_ok] at h
    obtain ⟨f, t, rfl, rfl, rfl⟩ := h
    exact ⟨rfl, by simp [Fits], rfl⟩
  · simp only [bind_eq_ok, word_eq_ok, take_eq_ok, pure_eq_ok] at h
    obtain ⟨n, t, ⟨rfl, hn⟩, b, u, ⟨rfl, rfl⟩, rfl, rfl⟩ := h
    refine ⟨rfl, ?_, by simp [body, Endian.encode]⟩
    rintro _ ⟨⟩
    exact hn
  · simp only [bind_eq_ok, readFloat_eq_ok, pure_eq_ok] at h
    obtain ⟨f, t, rfl, g, u, rfl, rfl, rfl⟩ := h
    exact ⟨rfl, by simp [Fits], by simp [body]⟩
  · simp only [bind_eq_ok, readFloat_eq_ok, pure_eq_ok] at h
    obtain ⟨f, t, rfl, g, u, rfl, i, v, rfl, rfl, rfl⟩ := h
    exact ⟨rfl, by simp [Fits], by simp [body]⟩
  · simp only [bind_eq_ok, word_eq_ok, pure_eq_ok] at h
    obtain ⟨n, t, ⟨rfl, hn⟩, rfl, rfl⟩ := h
    exact ⟨rfl, by simp [Fits], by rw [body, UInt32.toNat_ofNat_of_lt' hn]; rfl⟩
  · simp only [bind_eq_ok, word_eq_ok, pure_eq_ok] at h
    obtain ⟨n, t, ⟨rfl, hn⟩, rfl, rfl⟩ := h
    refine ⟨rfl, by simp [Fits], ?_⟩
    rw [body, UInt32.toUInt32_toInt32, UInt32.toNat_ofNat_of_lt' hn]
    rfl
  · cases h

/-- A value is read behind any index byte. -/
theorem read_eq_ok :
    Value.read s = .ok (x, rest) ↔ x.Fits ∧ ∃ index, s = x.placed index ++ rest := by
  simp only [Value.read, bind_eq_ok, word_one_eq_ok]
  constructor
  · rintro ⟨_, _, ⟨index, -, rfl⟩, _, _, ⟨kind, rfl, rfl⟩, hread⟩
    obtain ⟨hkind, hfits, rfl⟩ := of_readPayload hread
    exact ⟨hfits, index, by rw [UInt8.toNat_inj.mp hkind]; rfl⟩
  · rintro ⟨hfits, index, rfl⟩
    exact ⟨_, _, ⟨index, rfl, rfl⟩, _, _, ⟨x.kind, rfl, rfl⟩, readPayload_body hfits⟩

end Value

namespace Variant

variable {v : Variant} {b b' s rest indices : Bytes} {c : UInt8} {n i : Nat}

/-! ## values one behind the other -/

/-- The values, each behind one of the index bytes. -/
def laid : Bytes → Variant → Bytes
  | index :: indices, x :: v => x.placed index ++ laid indices v
  | _, _ => []

@[simp] theorem laid_nil (indices : Bytes) : laid indices [] = [] := by cases indices <;> rfl

/-- A layout is that of the first values and that of the others. -/
theorem laid_take_drop (h : indices.length = v.length) (i : Nat) :
    laid indices v = laid (indices.take i) (v.take i) ++ laid (indices.drop i) (v.drop i) := by
  induction v generalizing indices i with
  | nil => simp
  | cons x v ih =>
      obtain ⟨index, indices, rfl⟩ := List.exists_cons_of_length_eq_add_one h
      cases i with
      | zero => rfl
      | succ i =>
          rw [laid, ih (Nat.succ.inj h) i]
          simp [laid]

/-- The positions of `n` values from `i` on, as index bytes. -/
def positions (i n : Nat) : Bytes := (List.range' i n).map UInt8.ofNat

@[simp] theorem length_positions (i n : Nat) : (positions i n).length = n := by simp [positions]

/-- Values are read if and only if they are laid out, behind whatever index bytes. -/
theorem readValues_eq_ok : readValues n s = .ok (v, rest) ↔
    v.length = n ∧ (∀ x ∈ v, x.Fits) ∧ ∃ indices, indices.length = n ∧
      s = laid indices v ++ rest := by
  induction n generalizing s v rest with
  | zero =>
      simp only [readValues, pure_eq_ok, List.length_eq_zero_iff]
      constructor
      · rintro ⟨rfl, rfl⟩
        exact ⟨rfl, List.forall_mem_nil _, [], rfl, rfl⟩
      · rintro ⟨rfl, -, indices, rfl, rfl⟩
        exact ⟨rfl, rfl⟩
  | succ n ih =>
      simp only [readValues, bind_eq_ok, Value.read_eq_ok, ih, pure_eq_ok]
      constructor
      · rintro ⟨x, _, ⟨hx, index, rfl⟩, v, _, ⟨rfl, hv, indices, hlength, rfl⟩, rfl, rfl⟩
        refine ⟨rfl, List.forall_mem_cons.mpr ⟨hx, hv⟩, index :: indices, by simp [hlength], ?_⟩
        rw [laid, List.append_assoc]
      · rintro ⟨hlength, hfits, indices, hindices, rfl⟩
        obtain ⟨x, v, rfl⟩ := List.exists_cons_of_length_eq_add_one hlength
        obtain ⟨index, indices, rfl⟩ := List.exists_cons_of_length_eq_add_one hindices
        obtain ⟨hx, hv⟩ := List.forall_mem_cons.mp hfits
        refine ⟨x, laid indices v ++ rest, ⟨hx, index, ?_⟩, v, rest, ?_, rfl, rfl⟩
        · rw [laid, List.append_assoc]
        · exact ⟨Nat.succ.inj hlength, hv, indices, Nat.succ.inj hindices, rfl⟩

/-- A list is read wherever it is laid out behind its count. -/
theorem read_eq_ok : read s = .ok (v, rest) ↔ v.length ≤ 255 ∧ (∀ x ∈ v, x.Fits) ∧
    ∃ indices, indices.length = v.length ∧ s = UInt8.ofNat v.length :: laid indices v ++ rest := by
  simp only [read, bind_eq_ok, word_one_eq_ok, readValues_eq_ok]
  constructor
  · rintro ⟨_, _, ⟨count, rfl, rfl⟩, hlength, hfits, indices, hindices, rfl⟩
    refine ⟨?_, hfits, indices, hindices.trans hlength.symm, ?_⟩
    · rw [hlength]
      exact Nat.le_of_lt_succ count.toNat_lt
    · rw [hlength, UInt8.ofNat_toNat]
      rfl
  · rintro ⟨hlength, hfits, indices, hindices, rfl⟩
    have hcount : (UInt8.ofNat v.length).toNat = v.length :=
      UInt8.toNat_ofNat_of_lt' (Nat.lt_succ_of_le hlength)
    have hall : indices.length = (UInt8.ofNat v.length).toNat := by rw [hcount, hindices]
    exact ⟨_, _, ⟨UInt8.ofNat v.length, rfl, rfl⟩, hcount.symm, hfits, indices, hall, rfl⟩

/-- What is behind the values is let pass. -/
theorem decode_eq_ok : decode b = .ok v ↔ ∃ rest, read b = .ok (v, rest) := by
  rw [decode]
  cases read b with
  | error e => simp [Except.map]
  | ok p => simp [Except.map, Prod.ext_iff]

/-- Values are written behind their positions. -/
theorem encodeFrom_of_fits (h : ∀ x ∈ v, x.Fits) :
    encodeFrom i v = .ok (laid (positions i v.length) v) := by
  induction v generalizing i with
  | nil => rfl
  | cons x v ih =>
      obtain ⟨hx, hv⟩ := List.forall_mem_cons.mp h
      rw [encodeFrom, Value.payload_of_fits hx, ih hv]
      rfl

/-- Values that fit are written behind their positions, if a byte can count them. -/
theorem encode_eq_laid (h : ∀ x ∈ v, x.Fits) (hlength : v.length ≤ 255) :
    encode v = .ok (UInt8.ofNat v.length :: laid (positions 0 v.length) v) := by
  rw [encode, if_neg (Nat.not_lt.mpr hlength), encodeFrom_of_fits h]
  rfl

/-! ## where the index bytes stand -/

/-- How many bytes the values take, with their indices and kinds. -/
def extent (v : Variant) : Nat := (v.map Value.width).sum

/-- Where the value at position `i` begins, which is with its index byte. -/
def indexAt (v : Variant) (i : Nat) : Nat := 1 + extent (v.take i)

theorem indexAt_cons_succ (x : Value) (v : Variant) (i : Nat) :
    indexAt (x :: v) (i + 1) = x.width + indexAt v i := by
  simp only [indexAt, extent, List.take_succ_cons, List.map_cons, List.sum_cons]
  omega

/-- A layout is as long as the values are wide. -/
theorem length_laid (h : indices.length = v.length) : (laid indices v).length = extent v := by
  induction v generalizing indices with
  | nil => cases indices <;> rfl
  | cons x v ih =>
      obtain ⟨index, indices, rfl⟩ := List.exists_cons_of_length_eq_add_one h
      rw [laid, List.length_append, Value.length_placed, ih (Nat.succ.inj h)]
      rfl

/-- From the index byte of a value on there stand this value and those behind it. -/
theorem drop_indexAt (h : indices.length = v.length) (i : Nat) :
    (c :: laid indices v ++ rest).drop (indexAt v i) =
      laid (indices.drop i) (v.drop i) ++ rest := by
  have htake : (laid (indices.take i) (v.take i)).length = extent (v.take i) :=
    length_laid (by rw [List.length_take, List.length_take, h])
  rw [indexAt, Nat.add_comm, List.cons_append, List.drop_succ_cons, laid_take_drop h i,
    List.append_assoc, List.drop_left' htake]

/-- The index byte of each value stands where it begins. -/
theorem getElem?_indexAt (h : indices.length = v.length) (hi : i < v.length) :
    (c :: laid indices v)[indexAt v i]? = indices[i]? := by
  have hindex : i < indices.length := h ▸ hi
  have hdrop : (c :: laid indices v ++ []).drop (indexAt v i) = _ := drop_indexAt h i
  rw [List.append_nil, List.append_nil, List.drop_eq_getElem_cons hindex,
    List.drop_eq_getElem_cons hi] at hdrop
  rw [← List.head?_drop, hdrop, List.getElem?_eq_getElem hindex]
  rfl

/-- Two layouts of a list have the same bytes, but for those of the indices. -/
theorem getElem?_laid_of_ne {js : Bytes} {p : Nat} (h : indices.length = v.length)
    (hjs : js.length = v.length) (hp : ∀ i < v.length, p + 1 ≠ indexAt v i) :
    (laid indices v)[p]? = (laid js v)[p]? := by
  induction v generalizing indices js p with
  | nil => rw [laid_nil, laid_nil]
  | cons x v ih =>
      obtain ⟨index, indices, rfl⟩ := List.exists_cons_of_length_eq_add_one h
      obtain ⟨j, js, rfl⟩ := List.exists_cons_of_length_eq_add_one hjs
      have hfirst : p ≠ 0 := fun hzero => hp 0 (Nat.succ_pos _) (by rw [hzero]; rfl)
      rw [laid, laid, List.getElem?_append, List.getElem?_append, Value.length_placed,
        Value.length_placed]
      split
      · obtain ⟨q, rfl⟩ := Nat.exists_eq_succ_of_ne_zero hfirst
        rfl
      · next hbehind =>
          refine ih (Nat.succ.inj h) (Nat.succ.inj hjs) fun i hi heq => ?_
          refine hp (i + 1) (Nat.succ_lt_succ hi) ?_
          rw [indexAt_cons_succ]
          omega

/-- `b'` is what the reader takes of `b` for `v`, with the position of each value as its index. -/
structure Restored (b : Bytes) (v : Variant) (b' : Bytes) : Prop where
  length_le : b'.length ≤ b.length
  taken : read b = .ok (v, b.drop b'.length)
  value_at : ∀ i (h : i < v.length),
    Value.read (b.drop (indexAt v i)) = .ok (v[i], b.drop (indexAt v (i + 1)))
  index : ∀ i < v.length, b'[indexAt v i]? = some (UInt8.ofNat i)
  other : ∀ p < b'.length, (∀ i < v.length, p ≠ indexAt v i) → b'[p]? = b[p]?

/-- What was read is written again as it was, but for the index bytes. -/
theorem restored_of_read (h : read b = .ok (v, rest)) :
    ∃ b', encode v = .ok b' ∧ Restored b v b' := by
  obtain ⟨hcount, hfits, indices, hindices, rfl⟩ := read_eq_ok.mp h
  have hpositions := length_positions 0 v.length
  have hlength : (laid (positions 0 v.length) v).length = (laid indices v).length := by
    rw [length_laid hindices, length_laid hpositions]
  refine ⟨_, encode_eq_laid hfits hcount, ?_, ?_, ?_, ?_, ?_⟩
  · simp [hlength]
  · rw [h, List.length_cons, hlength, ← List.length_cons, List.drop_left]
  · intro i hi
    rw [drop_indexAt hindices i, drop_indexAt hindices (i + 1), List.drop_eq_getElem_cons hi,
      List.drop_eq_getElem_cons (hindices ▸ hi), laid, List.append_assoc]
    exact Value.read_eq_ok.mpr ⟨hfits _ (List.getElem_mem hi), _, rfl⟩
  · intro i hi
    rw [getElem?_indexAt hpositions hi]
    simp [positions, hi]
  · intro p hp hne
    rw [List.getElem?_append_left (by rwa [List.length_cons, ← hlength])]
    cases p with
    | zero => rfl
    | succ p => exact getElem?_laid_of_ne hpositions hindices hne

/-! ## both ways -/

/-- A list of values is written and read again. -/
theorem decode_encode (hfits : ∀ x ∈ v, x.Fits) (hlength : v.length ≤ 255) :
    ∃ b, encode v = .ok b ∧ decode b = .ok v := by
  refine ⟨_, encode_eq_laid hfits hlength, decode_eq_ok.mpr ⟨[], read_eq_ok.mpr ?_⟩⟩
  exact ⟨hlength, hfits, positions 0 v.length, length_positions _ _, (List.append_nil _).symm⟩

/-- It is refused if and only if a byte cannot count it. -/
theorem encode_eq_tooManyValues_iff (hfits : ∀ x ∈ v, x.Fits) :
    encode v = .error (.tooManyValues n) ↔ n = v.length ∧ 255 < v.length := by
  by_cases hlength : v.length ≤ 255
  · rw [encode_eq_laid hfits hlength]
    simp [hlength]
  · rw [encode, if_pos (Nat.lt_of_not_le hlength)]
    simp [Nat.lt_of_not_le hlength, eq_comm]

/-- Surplus bytes behind a list are not looked at. -/
theorem decode_append (h : decode b = .ok v) (c : Bytes) : decode (b ++ c) = .ok v := by
  obtain ⟨rest, hread⟩ := decode_eq_ok.mp h
  obtain ⟨hcount, hfits, indices, hindices, rfl⟩ := read_eq_ok.mp hread
  refine decode_eq_ok.mpr ⟨rest ++ c, read_eq_ok.mpr ⟨hcount, hfits, indices, hindices, ?_⟩⟩
  exact List.append_assoc _ _ _

/-- A list is written unless it has more values than a byte can count, and then its bytes are read
as the list. A list that was read, whatever stands behind it, is written as the bytes it was read
from, with the position of each value as its index. -/
theorem round_trip :
    (∀ v : Variant, (∀ b, Value.bytes b ∈ v → b.length < 2 ^ 32) →
      (∀ n, encode v = .error (.tooManyValues n) ↔ n = v.length ∧ 255 < v.length) ∧
      (v.length ≤ 255 → ∃ b, encode v = .ok b ∧ decode b = .ok v)) ∧
    ∀ (b : Bytes) (v : Variant), decode b = .ok v →
      (∀ c, decode (b ++ c) = .ok v) ∧ ∃ b', encode v = .ok b' ∧ Restored b v b' := by
  refine ⟨fun v hshort => ?_, fun b v h => ⟨decode_append h, ?_⟩⟩
  · have hfits : ∀ x ∈ v, x.Fits := by
      rintro x hx b rfl
      exact hshort b hx
    exact ⟨fun _ => encode_eq_tooManyValues_iff hfits, decode_encode hfits⟩
  · obtain ⟨rest, hread⟩ := decode_eq_ok.mp h
    exact restored_of_read hread

/-- A byte string that looks like a value, a float that is no number, and a negative word. -/
def mixed : Variant := [.bytes [0, 5], .float ⟨0x7F800001⟩, .int (-1)]

/-- The mixed list behind indices of its own, with a byte too many. -/
def astray : Bytes :=
  [3, 9, 2, 2, 0, 0, 0, 0, 5, 9, 1, 1, 0, 128, 127, 0, 9, 255, 255, 255, 255, 7]

/-- The indices are put right, the surplus goes, and nothing else is changed. -/
theorem round_trip_of_stray_indices : (∀ b, Value.bytes b ∈ mixed → b.length < 2 ^ 32) ∧
    mixed.length ≤ 255 ∧ (∃ b, encode mixed = .ok b ∧ decode b = .ok mixed) ∧
    decode astray = .ok mixed ∧ (∀ c, decode (astray ++ c) = .ok mixed) ∧
    ∃ b', encode mixed = .ok b' ∧ Restored astray mixed b' := by
  have hshort : ∀ b, Value.bytes b ∈ mixed → b.length < 2 ^ 32 := by
    intro b hb
    obtain rfl : b = [0, 5] := by simpa [mixed] using hb
    decide
  have hread : decode astray = .ok mixed := by rfl
  obtain ⟨hwritten, hrestored⟩ := round_trip
  exact ⟨hshort, by decide, (hwritten mixed hshort).2 (by decide), hread,
    (hrestored astray mixed hread).1, (hrestored astray mixed hread).2⟩

end Variant

end Intercept
