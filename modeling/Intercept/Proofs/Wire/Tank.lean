import Mathlib
import Intercept.Proofs.Wire.Reader
import Intercept.Wire.Tank

/-!
# Intercept.Proofs.Wire.Tank

A tank packet on the wire, said in two ways.

```
written t = fields, 52 bytes | length of the tail, 4 bytes | tail
body      = written t | surplus                (none in the strict mode)
```

1. By its bytes: the readers answer with a packet exactly on what it writes
   (`readFields_eq_ok`, `readTail_eq_ok`, `read_eq_ok`, `decode_eq_ok`). Both
   halves of a round trip are read off these.
2. By its offsets: `LaidOut` says where each field stands and does not mention
   the writer, so two fields that were swapped in the reader and the writer
   alike would not pass `laidOut_written`. The layout leaves nothing open
   (`LaidOut.unique`).
-/

namespace Intercept

namespace TankType

theorem nodup_all : all.Nodup := by decide

/-- A code is read as the one type that has it. -/
theorem ofCode?_eq_some_iff {c : UInt8} {t : TankType} : ofCode? c = some t ↔ c = t.code := by
  constructor
  · intro h
    have hc : c.toNat < all.length := (List.getElem?_eq_some_iff.mp h).1
    have hsame : all[c.toNat]? = all[t.code.toNat]? := h.trans (ofCode?_code t).symm
    exact UInt8.toNat_inj.mp ((List.getElem?_inj hc nodup_all).mp hsame)
  · rintro rfl
    exact ofCode?_code t

/-- No two types have one code. -/
theorem code_inj {t u : TankType} : t.code = u.code ↔ t = u :=
  ⟨fun h => Option.some.inj (by rw [← ofCode?_code t, h, ofCode?_code]), congrArg code⟩

/-- No code is above 46. -/
theorem code_le (t : TankType) : t.code.toNat ≤ 46 :=
  (ofCode?_isSome_iff t.code).mp (by rw [ofCode?_code]; rfl)

/-- Every code up to there is that of a type. -/
theorem lt_of_ofCode?_eq_none {c : UInt8} (h : ofCode? c = none) : 46 < c.toNat := by
  have hnot : ¬(ofCode? c).isSome := by simp [h]
  rw [ofCode?_isSome_iff] at hnot
  omega

end TankType

namespace Tank

open Reader

variable {mode : DecodeMode} {s rest body : Bytes} {t u : Tank}

/-- The bytes of a tank packet, with the actual length of the tail declared. -/
def written (t : Tank) : Bytes := t.fields ++ toLittle 4 t.tail.length ++ t.tail

/-- The fields take 52 bytes. -/
theorem length_fields (t : Tank) : t.fields.length = 52 := by simp [fields, word]

/-- A packet takes 56 bytes and its tail. -/
theorem length_written (t : Tank) : t.written.length = structLength + t.tail.length := by
  simp only [written, List.length_append, length_fields, length_toLittle, structLength]

/-! ## reading is undoing writing -/

/-- A type is read from its code. -/
theorem readType_eq_ok {type : TankType} :
    readType s = .ok (type, rest) ↔ s = type.code :: rest := by
  simp only [readType, bind_eq_ok, byte_eq_ok]
  constructor
  · rintro ⟨code, r, rfl, h⟩
    cases hcode : TankType.ofCode? code with
    | none => rw [hcode] at h; cases h
    | some type' =>
        rw [hcode] at h
        obtain ⟨rfl, rfl⟩ := pure_eq_ok.mp h
        rw [TankType.ofCode?_eq_some_iff.mp hcode]
  · rintro rfl
    exact ⟨type.code, rest, rfl, by rw [TankType.ofCode?_code, pure_eq_ok]; exact ⟨rfl, rfl⟩⟩

/-- The fields are read exactly where they are written, one behind the other. -/
theorem readFields_eq_ok : readFields s = .ok (t, rest) ↔ s = t.fields ++ rest ∧ t.tail = [] := by
  simp only [readFields, bind_eq_ok, readType_eq_ok, byte_eq_ok, uint_eq_ok, int_eq_ok,
    readFloat_eq_ok, pure_eq_ok]
  constructor
  · rintro ⟨type, _, rfl, objectType, _, rfl, jumpCount, _, rfl, animationType, _, rfl,
      netId, _, rfl, targetNetId, _, rfl, flags, _, rfl, floatVar, _, rfl, value, _, rfl,
      vectorX, _, rfl, vectorY, _, rfl, vectorX2, _, rfl, vectorY2, _, rfl,
      particleRotation, _, rfl, intX, _, rfl, intY, _, rfl, rfl, rfl⟩
    simp [fields, word]
  · rintro ⟨rfl, htail⟩
    obtain ⟨type, objectType, jumpCount, animationType, netId, targetNetId, ⟨flags⟩⟩ := t
    cases htail
    simp [fields, word]

/-- The tail is as long as declared, and in the strict mode nothing is behind it. -/
theorem readTail_eq_ok {declared : Nat} {tail : Bytes} :
    readTail mode declared s = .ok (tail, rest) ↔
      s = tail ++ rest ∧ tail.length = declared ∧ (mode = .strict → rest = []) := by
  unfold readTail
  by_cases h : declared = s.length
  · simp only [if_pos h, remaining, Except.ok.injEq, Prod.mk.injEq]
    constructor
    · rintro ⟨rfl, rfl⟩
      simp [h]
    · rintro ⟨rfl, hlength, -⟩
      have hrest : rest = [] := by
        rw [← List.length_eq_zero_iff]
        rw [List.length_append] at h
        omega
      simp [hrest]
  · cases mode with
    | strict =>
        simp only [if_neg h, reduceCtorEq, false_iff, forall_const]
        rintro ⟨rfl, hlength, rfl⟩
        exact h (by rw [List.append_nil, hlength])
    | relaxed =>
        by_cases hshort : s.length < declared
        · simp only [if_neg h, if_pos hshort, reduceCtorEq, false_iff]
          rintro ⟨rfl, hlength, -⟩
          rw [List.length_append] at hshort
          omega
        · simp only [if_neg h, if_neg hshort, take_eq_ok, reduceCtorEq, false_implies, and_true]

/-- A tank packet is read exactly where it is written in front of the rest; nothing is left of it
when no surplus is let pass. -/
theorem read_eq_ok : read mode s = .ok (t, rest) ↔
    s = t.written ++ rest ∧ t.tail.length < wordCount 4 ∧ (mode = .strict → rest = []) := by
  simp only [read, bind_eq_ok, readFields_eq_ok, word_eq_ok, readTail_eq_ok, pure_eq_ok]
  constructor
  · rintro ⟨t₀, _, ⟨rfl, -⟩, declared, _, ⟨rfl, hdeclared⟩, tail, _, ⟨rfl, hlength, hrest⟩, rfl,
      rfl⟩
    subst hlength
    exact ⟨by simp [written, fields, Endian.encode], hdeclared, hrest⟩
  · rintro ⟨rfl, hdeclared, hrest⟩
    refine ⟨{ t with tail := [] }, _, ⟨?_, rfl⟩, t.tail.length, _, ⟨rfl, hdeclared⟩, t.tail, rest,
      ⟨rfl, rfl, hrest⟩, rfl, rfl⟩
    simp [written, fields, Endian.encode]

/-- The bodies of a tank packet: what it writes, and what is let pass behind that. -/
theorem decode_eq_ok : decode mode body = .ok t ↔ ∃ surplus, body = t.written ++ surplus ∧
    t.tail.length < wordCount 4 ∧ (mode = .strict → surplus = []) := by
  simp only [← read_eq_ok, decode]
  by_cases hshort : body.length < structLength
  · simp only [if_pos hshort, reduceCtorEq, false_iff, not_exists]
    intro rest hread
    have hlength := congrArg List.length (read_eq_ok.mp hread).1
    rw [List.length_append, length_written] at hlength
    omega
  · rw [if_neg hshort]
    cases hread : read mode body with
    | error e => simp [Except.map]
    | ok p =>
        obtain ⟨u, rest⟩ := p
        simp [Except.map]

/-- What a packet writes is read as that packet in either mode. -/
theorem decode_written (h : t.tail.length < wordCount 4) : decode mode t.written = .ok t :=
  decode_eq_ok.mpr ⟨[], by rw [List.append_nil], h, fun _ => rfl⟩

/-! ## where the fields are -/

/-- The packet has what stands in the body at these offsets: little-endian words, and behind them
as many bytes as the last word declares. -/
structure LaidOut (body : Bytes) (t : Tank) : Prop where
  type : body.wordAt 0 1 = t.type.code.toNat
  objectType : body.wordAt 1 1 = t.objectType.toNat
  jumpCount : body.wordAt 2 1 = t.jumpCount.toNat
  animationType : body.wordAt 3 1 = t.animationType.toNat
  netId : body.wordAt 4 4 = t.netId.toNat
  targetNetId : toSigned 4 (body.wordAt 8 4) = t.targetNetId.toInt
  flags : body.wordAt 12 4 = t.flags.bits.toNat
  floatVar : body.wordAt 16 4 = t.floatVar.bits.toNat
  value : body.wordAt 20 4 = t.value.toNat
  vectorX : body.wordAt 24 4 = t.vectorX.bits.toNat
  vectorY : body.wordAt 28 4 = t.vectorY.bits.toNat
  vectorX2 : body.wordAt 32 4 = t.vectorX2.bits.toNat
  vectorY2 : body.wordAt 36 4 = t.vectorY2.bits.toNat
  particleRotation : body.wordAt 40 4 = t.particleRotation.bits.toNat
  intX : toSigned 4 (body.wordAt 44 4) = t.intX.toInt
  intY : toSigned 4 (body.wordAt 48 4) = t.intY.toInt
  tail : (body.drop 56).take (body.wordAt 52 4) = t.tail

theorem length_word (n : UInt32) : (word n).length = 4 := length_toLittle 4 _

theorem wordAt_word {n : UInt32} {b : Bytes} : Bytes.wordAt (word n ++ b) 0 4 = n.toNat :=
  Bytes.wordAt_toLittle n.toNat_lt

/-- The length that is declared stands behind the fields. -/
theorem wordAt_declared {surplus : Bytes} (h : t.tail.length < wordCount 4) :
    Bytes.wordAt (t.written ++ surplus) 52 4 = t.tail.length := by
  have hfront : t.fields.length ≤ 52 := by rw [length_fields]
  simp only [written, List.append_assoc]
  rw [Bytes.wordAt_append_right hfront, length_fields, Bytes.wordAt_toLittle h]

/-- What a packet writes has every field in its place, whatever stands behind. -/
theorem laidOut_written {surplus : Bytes} (h : t.tail.length < wordCount 4) :
    t.LaidOut (t.written ++ surplus) := by
  constructor
  -- the tail is behind the declared length; the words are found by dropping what is before them
  case tail =>
    have hfront : (t.fields ++ toLittle 4 t.tail.length).length = 56 := by
      rw [List.length_append, length_fields, length_toLittle]
    rw [wordAt_declared h, written, List.append_assoc _ t.tail, List.drop_left' hfront,
      List.take_left]
  all_goals
    simp (disch := simp [length_word]) only [written, fields, List.append_assoc, List.cons_append,
      List.nil_append, Bytes.wordAt_byte, Bytes.wordAt_behind_byte, wordAt_word, length_word,
      Bytes.wordAt_append_right, toSigned_toUInt32, Nat.reduceSub]

/-- The layout leaves no field open. -/
theorem LaidOut.unique (ht : t.LaidOut body) (hu : u.LaidOut body) : t = u := by
  cases ht
  cases hu
  cases t
  cases u
  grind [UInt8.toNat_inj, UInt32.toNat_inj, Int32.toInt_inj, TankType.code_inj, cases Binary32,
    cases TankFlags]

end Tank

end Intercept
