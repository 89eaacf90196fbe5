import Mathlib
import Intercept.Wire.Packet

/-!
# Intercept.Proofs.Wire.Envelope

The envelope of a message, from both sides.

```
enveloped type body last = tag of type, in four bytes | body | last
```

1. Only a tag from 1 to 8 is one; from there on the payload's own rules decide
   (`decode_of_lt`, `decode_of_unknown`, `decode_of_tag`).
2. Five bytes with a good tag are an envelope around their body
   (`eq_enveloped`), and reading one reads its body (`decode_enveloped`).
-/

namespace Intercept

namespace PacketType

/-- The tags are the numbers from 1 to 8. -/
theorem ofTag?_eq_none_iff {n : Nat} : ofTag? n = none ↔ ¬(1 ≤ n ∧ n ≤ 8) := by
  rw [ofTag?]
  split
  · simp_all
  · rw [List.getElem?_eq_none_iff]
    simp only [all, List.length_cons, List.length_nil]
    omega

/-- Each of them is that of a type. -/
theorem exists_tag_eq {n : Nat} (h : 1 ≤ n ∧ n ≤ 8) : ∃ t, n = tag t := by
  obtain ⟨hlow, hhigh⟩ := h
  interval_cases n
  exacts [⟨.serverHello, rfl⟩, ⟨.genericText, rfl⟩, ⟨.gameMessage, rfl⟩, ⟨.tankPacket, rfl⟩,
    ⟨.error, rfl⟩, ⟨.track, rfl⟩, ⟨.clientLogRequest, rfl⟩, ⟨.clientLogResponse, rfl⟩]

end PacketType

namespace Packet

variable {mode : DecodeMode} {b : Bytes} {type : PacketType}

/-- What is between the type tag and the last byte. -/
def bodyOf (b : Bytes) : Bytes := (b.drop 4).dropLast

/-- Fewer than four bytes have no tag. -/
theorem decode_of_lt (h : b.length < 4) : decode mode b = .error (.malformedTypeTag b.length) := by
  simp [decode, h, bind, Except.bind, throw, throwThe, MonadExceptOf.throw]

/-- A tag of no type is told in the refusal. -/
theorem decode_of_unknown (h : 4 ≤ b.length) (htag : ¬(1 ≤ b.wordAt 0 4 ∧ b.wordAt 0 4 ≤ 8)) :
    decode mode b = .error (.unknownType (b.wordAt 0 4)) := by
  have hlong : ¬b.length < 4 := Nat.not_lt.mpr h
  rw [← PacketType.ofTag?_eq_none_iff] at htag
  rw [Bytes.wordAt, List.drop_zero] at htag ⊢
  simp [decode, hlong, bind, Except.bind, PacketType.ofTag, htag]

/-- Behind a good tag the rules of the payload decide. -/
theorem decode_of_tag (h : 4 ≤ b.length) (htag : b.wordAt 0 4 = type.tag) :
    decode mode b = (decodePayload mode type (bodyOf b)).map fun payload => ⟨type, payload⟩ := by
  have hlong : ¬b.length < 4 := Nat.not_lt.mpr h
  rw [Bytes.wordAt, List.drop_zero] at htag
  simp [decode, hlong, bind, Except.bind, PacketType.ofTag, htag, pure, Except.pure,
    PacketType.ofTag?_tag, bodyOf, Except.map]

theorem decodePayload_tank (mode : DecodeMode) (body : Bytes) :
    decodePayload mode .tankPacket body = (Tank.decode mode body).map .tank := rfl

/-- Three types carry a text table, which is always read. -/
theorem decodePayload_of_table (htype : type = .genericText ∨ type = .gameMessage ∨ type = .track)
    (mode : DecodeMode) (body : Bytes) :
    decodePayload mode type body = .ok (.table (Table.decode body)) := by
  obtain rfl | rfl | rfl := htype <;> rfl

/-- Four carry nothing that is read. -/
theorem decodePayload_of_empty (htype : type = .serverHello ∨ type = .error ∨
    type = .clientLogRequest ∨ type = .clientLogResponse) (mode : DecodeMode) (body : Bytes) :
    decodePayload mode type body = .ok .empty := by
  obtain rfl | rfl | rfl | rfl := htype <;> rfl

/-! ## the envelope around a body -/

/-- A body behind its tag and in front of a last byte. -/
def enveloped (type : PacketType) (body : Bytes) (last : UInt8) : Bytes :=
  toLittle 4 type.tag ++ body ++ [last]

/-- The body of an envelope is what was put into it. -/
theorem bodyOf_enveloped (type : PacketType) (body : Bytes) (last : UInt8) :
    bodyOf (enveloped type body last) = body := by
  rw [bodyOf, enveloped, List.append_assoc, List.drop_left' (length_toLittle 4 _),
    List.dropLast_concat]

/-- An envelope is read as its body is. -/
theorem decode_enveloped (mode : DecodeMode) (type : PacketType) (body : Bytes) (last : UInt8) :
    decode mode (enveloped type body last) =
      (decodePayload mode type body).map fun payload => ⟨type, payload⟩ := by
  have hlength : 4 ≤ (enveloped type body last).length := by
    simp only [enveloped, List.length_append, length_toLittle]
    omega
  have htag : (enveloped type body last).wordAt 0 4 = type.tag := by
    rw [enveloped, List.append_assoc, Bytes.wordAt_toLittle]
    cases type <;> decide
  rw [decode_of_tag hlength htag, bodyOf_enveloped]

/-- Bytes with room for a last byte are an envelope. -/
theorem eq_enveloped (h : 5 ≤ b.length) (htag : b.wordAt 0 4 = type.tag) :
    ∃ last, b = enveloped type (bodyOf b) last := by
  have hne : b.drop 4 ≠ [] := by
    rw [ne_eq, List.drop_eq_nil_iff]
    omega
  have hfront : toLittle 4 type.tag = b.take 4 := by
    rw [← htag, Bytes.toLittle_wordAt (by omega), List.drop_zero]
  refine ⟨(b.drop 4).getLast hne, ?_⟩
  rw [enveloped, bodyOf, hfront, List.append_assoc, List.dropLast_concat_getLast,
    List.take_append_drop]

end Packet

end Intercept
