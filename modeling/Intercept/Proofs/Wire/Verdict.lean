import Mathlib
import Intercept.Proofs.Wire.Tank
import Intercept.Proofs.Wire.Envelope

/-!
# Intercept.Proofs.Wire.Verdict

The rules by which bytes are a message or are refused, in the order in which
they apply:

1. fewer than four bytes have no type tag;
2. a tag other than 1 to 8 is no type;
3. the body of a tank packet has 56 bytes at least, then a type up to 46, then
   a tail as long as declared (or a longer one, in the relaxed mode);
4. everything else is a message.

`Tank.Verdict` and `Packet.Verdict` state them on offsets, without the readers
and the types the decoders go through. That the decoders follow them comes in
two steps. Where there is room for 52 bytes the sixteen reads of the fields
take all of them (`Takes`), so only the type can be at fault
(`Tank.readFields_error`); and since the rules exclude one another, following
them in one direction is following them in both (`Tank.verdict_iff`,
`verdict_iff`).
-/

namespace Intercept

namespace Tank

open Reader

variable {mode : DecodeMode} {s rest body : Bytes} {t : Tank} {e : CodecError}

/-! ## what a tank packet is refused for -/

/-- Only a type can be at fault, and only above 46. -/
theorem readType_error (hs : 1 ≤ s.length) (h : readType s = .error e) :
    46 < s.wordAt 0 1 ∧ e = .unknownTankType (UInt8.ofNat (s.wordAt 0 1)) := by
  rw [readType, bind_eq_error] at h
  obtain hbyte | ⟨code, r, hbyte, hcode⟩ := h
  · exact absurd hbyte (takes_byte.not_error hs)
  · obtain rfl := byte_eq_ok.mp hbyte
    rw [Bytes.wordAt_byte, UInt8.ofNat_toNat]
    cases hknown : TankType.ofCode? code with
    | none =>
        rw [hknown] at hcode
        cases hcode
        exact ⟨TankType.lt_of_ofCode?_eq_none hknown, rfl⟩
    | some type => rw [hknown] at hcode; cases hcode

/-- Where there is room for the fields, no read fails but for a type that is none. -/
theorem readFields_error (hs : 52 ≤ s.length) (h : readFields s = .error e) :
    46 < s.wordAt 0 1 ∧ e = .unknownTankType (UInt8.ofNat (s.wordAt 0 1)) := by
  rw [readFields, bind_eq_error] at h
  obtain htype | ⟨type, r, htype, hfields⟩ := h
  · exact readType_error (by omega) htype
  · obtain rfl := readType_eq_ok.mp htype
    have hr : 51 ≤ r.length := Nat.le_of_succ_le_succ hs
    -- the other fifteen fields take the 51 bytes behind the type
    refine absurd hfields (Takes.not_error ?_ hr)
    refine takes_byte.bind (by omega) fun _ => ?_
    refine takes_byte.bind (by omega) fun _ => ?_
    refine takes_byte.bind (by omega) fun _ => ?_
    refine takes_uint.bind (by omega) fun _ => ?_
    refine takes_int.bind (by omega) fun _ => ?_
    refine takes_uint.bind (by omega) fun _ => ?_
    refine takes_readFloat.bind (by omega) fun _ => ?_
    refine takes_uint.bind (by omega) fun _ => ?_
    refine takes_readFloat.bind (by omega) fun _ => ?_
    refine takes_readFloat.bind (by omega) fun _ => ?_
    refine takes_readFloat.bind (by omega) fun _ => ?_
    refine takes_readFloat.bind (by omega) fun _ => ?_
    refine takes_readFloat.bind (by omega) fun _ => ?_
    refine takes_int.bind (by omega) fun _ => ?_
    refine takes_int.bind (by omega) fun _ => ?_
    exact takes_pure _

/-- A tail is refused for its length, by the rule of the mode. -/
theorem readTail_error {declared : Nat} (h : readTail mode declared s = .error e) :
    (mode = .strict ∧ declared ≠ s.length ∧ e = .extendedLenMismatch declared s.length) ∨
      (mode = .relaxed ∧ s.length < declared ∧ e = .truncatedExtendedData declared s.length) := by
  unfold readTail at h
  by_cases hd : declared = s.length
  · simp [if_pos hd, remaining] at h
  · cases mode with
    | strict => simp_all
    | relaxed =>
        by_cases hshort : s.length < declared
        · simp_all
        · simp_all [take]

/-! ## the rules for a tank packet -/

/-- What the rules of the format say about the body of a tank packet: it is refused, or it is this
packet. -/
inductive Verdict (mode : DecodeMode) (body : Bytes) : Except CodecError Tank → Prop
  | noStruct (hstruct : body.length < 56) :
      Verdict mode body (.error (.truncatedStruct 56 body.length))
  | unknownType (hstruct : 56 ≤ body.length) (htype : 46 < body.wordAt 0 1) :
      Verdict mode body (.error (.unknownTankType (UInt8.ofNat (body.wordAt 0 1))))
  | otherLength (hstruct : 56 ≤ body.length) (htype : body.wordAt 0 1 ≤ 46) (hmode : mode = .strict)
      (hlength : body.wordAt 52 4 ≠ body.length - 56) :
      Verdict mode body (.error (.extendedLenMismatch (body.wordAt 52 4) (body.length - 56)))
  | shortTail (hstruct : 56 ≤ body.length) (htype : body.wordAt 0 1 ≤ 46) (hmode : mode = .relaxed)
      (hlength : body.length - 56 < body.wordAt 52 4) :
      Verdict mode body (.error (.truncatedExtendedData (body.wordAt 52 4) (body.length - 56)))
  | packet {t : Tank} (hstruct : 56 ≤ body.length) (htype : body.wordAt 0 1 ≤ 46)
      (hlength : body.wordAt 52 4 ≤ body.length - 56)
      (hstrict : mode = .strict → body.wordAt 52 4 = body.length - 56) (hlayout : t.LaidOut body) :
      Verdict mode body (.ok t)

/-- Whatever the readers refuse, the rules refuse for the same reason. -/
theorem verdict_of_read_error (hs : 56 ≤ body.length) (h : read mode body = .error e) :
    Verdict mode body (.error e) := by
  rw [read, bind_eq_error] at h
  obtain hfields | ⟨t, r, hfields, h⟩ := h
  · obtain ⟨htype, rfl⟩ := readFields_error (by omega) hfields
    exact .unknownType hs htype
  have hbody := (readFields_eq_ok.mp hfields).1
  have htype : body.wordAt 0 1 ≤ 46 := by
    rw [hbody]
    exact Bytes.wordAt_byte.trans_le t.type.code_le
  have hr : r = body.drop 52 := by rw [hbody, List.drop_left' t.length_fields]
  rw [hr, bind_of_ok (word_drop (by omega))] at h
  obtain htail | ⟨tail, r', -, hpure⟩ := bind_eq_error.mp h
  · obtain ⟨hmode, hlength, rfl⟩ | ⟨hmode, hlength, rfl⟩ := readTail_error htail
    · rw [List.length_drop] at hlength ⊢
      exact .otherLength hs htype hmode hlength
    · rw [List.length_drop] at hlength ⊢
      exact .shortTail hs htype hmode hlength
  · cases hpure

/-- A body that is too short is refused before it is read. -/
theorem decode_of_lt (hs : body.length < 56) :
    decode mode body = .error (.truncatedStruct 56 body.length) := if_pos hs

/-- A body that is long enough is read. -/
theorem decode_of_le (hs : 56 ≤ body.length) : decode mode body = (read mode body).map (·.1) :=
  if_neg (Nat.not_lt.mpr hs)

/-- Reading gives the verdict of the rules. -/
theorem verdict_decode (mode : DecodeMode) (body : Bytes) :
    Verdict mode body (decode mode body) := by
  by_cases hs : 56 ≤ body.length
  · cases hdecode : decode mode body with
    | error e =>
        rw [decode_of_le hs] at hdecode
        cases hread : read mode body with
        | error err =>
            rw [hread] at hdecode
            cases hdecode
            exact verdict_of_read_error hs hread
        | ok p => rw [hread] at hdecode; cases hdecode
    | ok t =>
        obtain ⟨surplus, hbody, hdeclared, hstrict⟩ := decode_eq_ok.mp hdecode
        have hlayout : t.LaidOut body := hbody ▸ laidOut_written hdeclared
        have hd : body.wordAt 52 4 = t.tail.length := hbody ▸ wordAt_declared hdeclared
        have hlength : body.length = 56 + t.tail.length + surplus.length := by
          rw [hbody, List.length_append, length_written, structLength]
        refine .packet hs (hlayout.type.trans_le t.type.code_le) (by omega) ?_ hlayout
        intro hmode
        have hnone : surplus.length = 0 := by rw [hstrict hmode, List.length_nil]
        omega
  · rw [decode_of_lt (by omega)]
    exact .noStruct (by omega)

/-- The rules leave nothing open: their conditions exclude one another. -/
theorem verdict_iff {r : Except CodecError Tank} : Verdict mode body r ↔ decode mode body = r := by
  constructor
  · intro h
    have hdecode := verdict_decode mode body
    generalize decode mode body = r' at hdecode
    -- two verdicts on one body are by the same rule, as no two rules apply together
    cases h <;> cases hdecode <;> grind [LaidOut.unique]
  · rintro rfl
    exact verdict_decode mode body

end Tank

namespace Packet

variable {mode : DecodeMode} {b : Bytes} {type : PacketType}

/-! ## the rules for a message -/

/-- What the rules of the format say about bytes: they are refused, or they are this message. -/
inductive Verdict (mode : DecodeMode) (b : Bytes) : Except CodecError Packet → Prop
  | noTag (hlength : b.length < 4) : Verdict mode b (.error (.malformedTypeTag b.length))
  | unknownType (hlength : 4 ≤ b.length) (htag : ¬(1 ≤ b.wordAt 0 4 ∧ b.wordAt 0 4 ≤ 8)) :
      Verdict mode b (.error (.unknownType (b.wordAt 0 4)))
  | noTank {e : CodecError} (hlength : 4 ≤ b.length) (htag : b.wordAt 0 4 = 4)
      (hbody : Tank.Verdict mode (bodyOf b) (.error e)) : Verdict mode b (.error e)
  | tank {t : Tank} (hlength : 4 ≤ b.length) (htag : b.wordAt 0 4 = 4)
      (hbody : Tank.Verdict mode (bodyOf b) (.ok t)) : Verdict mode b (.ok ⟨.tankPacket, .tank t⟩)
  | table {type : PacketType} (hlength : 4 ≤ b.length) (htag : b.wordAt 0 4 = type.tag)
      (htype : type = .genericText ∨ type = .gameMessage ∨ type = .track) :
      Verdict mode b (.ok ⟨type, .table (Table.decode (bodyOf b))⟩)
  | empty {type : PacketType} (hlength : 4 ≤ b.length) (htag : b.wordAt 0 4 = type.tag)
      (htype : type = .serverHello ∨ type = .error ∨ type = .clientLogRequest ∨
        type = .clientLogResponse) :
      Verdict mode b (.ok ⟨type, .empty⟩)

/-- What the rules say is what decoding comes to. -/
theorem decode_of_verdict {r : Except CodecError Packet} (h : Verdict mode b r) :
    decode mode b = r := by
  cases h with
  | noTag hlength => exact decode_of_lt hlength
  | unknownType hlength htag => exact decode_of_unknown hlength htag
  | noTank hlength htag hbody | tank hlength htag hbody =>
      have htype : b.wordAt 0 4 = PacketType.tankPacket.tag := htag
      rw [decode_of_tag hlength htype, decodePayload_tank, Tank.verdict_iff.mp hbody]
      rfl
  | table hlength htag htype =>
      rw [decode_of_tag hlength htag, decodePayload_of_table htype]
      rfl
  | empty hlength htag htype =>
      rw [decode_of_tag hlength htag, decodePayload_of_empty htype]
      rfl

/-- The rules have an answer behind every good tag. -/
theorem exists_verdict_of_tag (hlength : 4 ≤ b.length) (htag : b.wordAt 0 4 = type.tag) :
    ∃ r, Verdict mode b r := by
  cases type with
  | tankPacket =>
      cases h : Tank.decode mode (bodyOf b) with
      | error e => exact ⟨_, .noTank hlength htag (Tank.verdict_iff.mpr h)⟩
      | ok t => exact ⟨_, .tank hlength htag (Tank.verdict_iff.mpr h)⟩
  | genericText | gameMessage | track => exact ⟨_, .table hlength htag (by simp)⟩
  | serverHello | error | clientLogRequest | clientLogResponse =>
      exact ⟨_, .empty hlength htag (by simp)⟩

/-- They have one for all bytes. -/
theorem exists_verdict (mode : DecodeMode) (b : Bytes) : ∃ r, Verdict mode b r := by
  by_cases hlength : b.length < 4
  · exact ⟨_, .noTag hlength⟩
  · by_cases htag : 1 ≤ b.wordAt 0 4 ∧ b.wordAt 0 4 ≤ 8
    · obtain ⟨type, htype⟩ := PacketType.exists_tag_eq htag
      exact exists_verdict_of_tag (Nat.not_lt.mp hlength) htype
    · exact ⟨_, .unknownType (Nat.not_lt.mp hlength) htag⟩

theorem verdict_iff {r : Except CodecError Packet} : Verdict mode b r ↔ decode mode b = r := by
  constructor
  · exact decode_of_verdict
  · rintro rfl
    obtain ⟨r, hr⟩ := exists_verdict mode b
    rw [decode_of_verdict hr]
    exact hr

/-- Bytes are read as the rules of the format say, all of them and in no other way, and no read
goes past the end. -/
theorem decode_iff_verdict (mode : DecodeMode) (b : Bytes) :
    (∀ r, decode mode b = r ↔ Verdict mode b r) ∧
      ∀ e, decode mode b = .error e → e.layer ≠ .buffer := by
  refine ⟨fun r => verdict_iff.symm, fun e he => ?_⟩
  cases verdict_iff.mpr he with
  | noTag | unknownType => simp [CodecError.layer]
  | noTank _ _ hbody => cases hbody <;> simp [CodecError.layer]

/-- A body of 56 bytes is long enough for every read, and its first byte is no type. -/
theorem refused_for_its_type :
    decode .strict ([4, 0, 0, 0, 47] ++ List.replicate 56 0) = .error (.unknownTankType 47) ∧
      (CodecError.unknownTankType 47).layer ≠ .buffer := by
  have h : decode .strict ([4, 0, 0, 0, 47] ++ List.replicate 56 0) =
      .error (.unknownTankType 47) := by
    rfl
  exact ⟨h, (decode_iff_verdict .strict _).2 _ h⟩

end Packet

end Intercept
