import Mathlib
import Intercept.Proofs.Wire.Table
import Intercept.Proofs.Wire.Verdict

/-!
# Intercept.Proofs.Wire.RoundTrip

Messages written and read again, from both ends.

1. `Fits`: the payload is one for the type, a table is legible, and a tail is
   announced by its flag. What fits is written, and the bytes are read as the
   same message in either mode (`Fits.exists_encode`).
2. What was read fits, but for a tail that no flag announces
   (`fits_of_decode`): the reader does not ask for the flag, the writer does.
   So a message that was read is written again unless its tail is
   `Unannounced`, and (1) says how those bytes are read.

The index of a table is no part of it on the wire. A message is read with its
table `reindexed`, which is the `Same` message, and one that was read is
indexed already.
-/

namespace Intercept

/-! ## writing a tank packet -/

namespace Tank

variable {t : Tank}

/-- There is a tail, and no flag that announces it. -/
def Unannounced (t : Tank) : Prop := t.tail ≠ [] ∧ t.flags.contains .extended = false

/-- A tail that no flag announces is not written. -/
theorem encode_of_unannounced (h : t.Unannounced) :
    t.encode = .error (.extendedDataWithoutFlag t.tail.length) :=
  if_pos ⟨h.1, by rw [h.2]; rfl⟩

/-- Any other packet is, if a word can say the length of its tail. -/
theorem encode_of_not_unannounced (h : ¬t.Unannounced) (hlength : t.tail.length < wordCount 4) :
    t.encode = .ok t.written := by
  have hflag : ¬(t.tail ≠ [] ∧ (!t.flags.contains .extended) = true) := by
    rintro ⟨htail, hflag⟩
    exact h ⟨htail, by simpa using hflag⟩
  have hshort : ¬LengthWidth.four.max < t.tail.length := by
    rw [LengthWidth.max, LengthWidth.bytes]
    omega
  rw [encode, if_neg hflag, if_neg hshort, written]

end Tank

namespace Packet

variable {mode : DecodeMode} {b body : Bytes} {p : Packet} {type : PacketType} {e : CodecError}

/-! ## messages that read back -/

/-- The payload is one for the type, and nothing of it is lost on the wire. -/
inductive Fits : Packet → Prop
  | empty {type : PacketType} (htype : type = .serverHello ∨ type = .error ∨
      type = .clientLogRequest ∨ type = .clientLogResponse) : Fits ⟨type, .empty⟩
  | table {type : PacketType} {t : Table} (htype : type = .genericText ∨ type = .gameMessage ∨
      type = .track) (ht : t.Legible) : Fits ⟨type, .table t⟩
  | tank {t : Tank} (hlength : t.tail.length < 2 ^ 32)
      (htail : t.tail = [] ∨ t.flags.contains .extended) : Fits ⟨.tankPacket, .tank t⟩

/-- What fits has no unannounced tail. -/
theorem Fits.not_unannounced {t : Tank} (h : Fits ⟨type, .tank t⟩) : ¬t.Unannounced := by
  cases h with
  | tank _ htail =>
      rintro ⟨hne, hflag⟩
      simp [hne, hflag] at htail

/-- The same message: tank packets to the bit, and tables in their rows and their end, however
their keys are indexed. -/
inductive Same : Packet → Packet → Prop
  | empty (type : PacketType) : Same ⟨type, .empty⟩ ⟨type, .empty⟩
  | tank (type : PacketType) (t : Tank) : Same ⟨type, .tank t⟩ ⟨type, .tank t⟩
  | table (type : PacketType) {t u : Table} (hrows : t.rows = u.rows)
      (hend : t.trailingNewline = u.trailingNewline) : Same ⟨type, .table t⟩ ⟨type, .table u⟩

/-- The message with the key index of its table made anew. -/
def reindexed (p : Packet) : Packet :=
  match p.payload with
  | .table t => { p with payload := .table t.reindex }
  | _ => p

/-- A message with its table made anew is the same message. -/
theorem same_reindexed (p : Packet) : p.reindexed.Same p := by
  obtain ⟨type, payload⟩ := p
  cases payload with
  | empty => exact .empty type
  | tank t => exact .tank type t
  | table t => exact .table type rfl rfl

/-- What fits is written, and read again in either mode. -/
theorem Fits.exists_encode (h : p.Fits) :
    ∃ b, p.encode = .ok b ∧ ∀ mode, decode mode b = .ok p.reindexed := by
  cases h with
  | @empty type htype =>
      refine ⟨enveloped type [] 0, rfl, fun mode => ?_⟩
      rw [decode_enveloped, decodePayload_of_empty htype]
      rfl
  | @table type t htype ht =>
      refine ⟨enveloped type t.encode 0, rfl, fun mode => ?_⟩
      rw [decode_enveloped, decodePayload_of_table htype, ht.decode_encode]
      rfl
  | @tank t hlength htail =>
      have hencode :=
        Tank.encode_of_not_unannounced (Fits.tank hlength htail).not_unannounced hlength
      refine ⟨enveloped .tankPacket t.written 0, ?_, fun mode => ?_⟩
      · rw [encode, encodePayload, hencode]
        rfl
      · rw [decode_enveloped, decodePayload_tank, Tank.decode_written hlength]
        rfl

/-- A message that fits is written, and its bytes are read as the same message, whatever the
mode. -/
theorem Fits.reads_back (h : p.Fits) :
    ∃ b q, p.encode = .ok b ∧ (∀ mode, decode mode b = .ok q) ∧ q.Same p := by
  obtain ⟨b, hencode, hdecode⟩ := h.exists_encode
  exact ⟨b, p.reindexed, hencode, hdecode, same_reindexed p⟩

/-- A call with a float that is no number, a negative id and a tail of odd bytes. -/
def noisy : Packet where
  type := .tankPacket
  payload := .tank { Tank.zero .callFunction with
    targetNetId := -1
    flags := .extended
    floatVar := ⟨0x7F800001⟩
    tail := [0, 124, 10] }

/-- Neither the float nor the tail is changed on the way. -/
theorem reads_back_bit_for_bit : noisy.Fits ∧
    ∃ b q, noisy.encode = .ok b ∧ (∀ mode, decode mode b = .ok q) ∧ q.Same noisy := by
  have h : noisy.Fits := .tank (by decide) (.inr (by decide))
  exact ⟨h, h.reads_back⟩

/-! ## messages that were read -/

/-- What is read fits, but for a tail that no flag announces. -/
theorem fits_of_decode (h : decode mode b = .ok p) :
    p.reindexed = p ∧ (p.Fits ∨ ∃ t, p = ⟨.tankPacket, .tank t⟩ ∧ t.Unannounced) := by
  cases verdict_iff.mpr h with
  | @tank t _ _ hbody =>
      obtain ⟨_, _, hlength, _⟩ := Tank.decode_eq_ok.mp (Tank.verdict_iff.mp hbody)
      refine ⟨rfl, ?_⟩
      by_cases ht : t.Unannounced
      · exact .inr ⟨t, rfl, ht⟩
      · refine .inl (.tank hlength ?_)
        by_cases hnil : t.tail = []
        · exact .inl hnil
        · exact .inr (by simpa [Tank.Unannounced, hnil] using ht)
  | table _ _ htype => exact ⟨rfl, .inl (.table htype (Table.legible_decode _))⟩
  | empty _ _ htype => exact ⟨rfl, .inl (.empty htype)⟩

/-- A message that was read is refused by the writer for an unannounced tail alone. -/
theorem encode_error_iff (h : decode mode b = .ok p) : p.encode = .error e ↔
    ∃ t, p = ⟨.tankPacket, .tank t⟩ ∧ t.Unannounced ∧
      e = .extendedDataWithoutFlag t.tail.length := by
  obtain ⟨-, hfits | ⟨t, rfl, ht⟩⟩ := fits_of_decode h
  · obtain ⟨b', hencode, -⟩ := hfits.exists_encode
    simp only [hencode, reduceCtorEq, false_iff]
    rintro ⟨t, rfl, ht, -⟩
    exact hfits.not_unannounced ht
  · have hencode :
      encode ⟨.tankPacket, .tank t⟩ = .error (.extendedDataWithoutFlag t.tail.length) := by
      rw [encode, encodePayload, Tank.encode_of_unannounced ht]
      rfl
    simp only [hencode, Except.error.injEq, Packet.mk.injEq, Payload.tank.injEq, true_and]
    constructor
    · rintro rfl
      exact ⟨t, rfl, ht, rfl⟩
    · rintro ⟨_, rfl, -, rfl⟩
      rfl

/-- A message that was read is written so that it is read again. -/
theorem decode_of_encode {b' : Bytes} (h : decode mode b = .ok p) (hencode : p.encode = .ok b')
    (mode' : DecodeMode) : decode mode' b' = .ok p := by
  obtain ⟨hindex, hfits | ⟨t, rfl, ht⟩⟩ := fits_of_decode h
  · obtain ⟨b₀, hencode₀, hdecode⟩ := hfits.exists_encode
    rw [hencode₀] at hencode
    cases hencode
    rw [hdecode, hindex]
  · rw [encode, encodePayload, Tank.encode_of_unannounced ht] at hencode
    cases hencode

/-- The bytes of a tank packet that was read are its own ones, behind the tag and in front of the
surplus and the last byte. -/
theorem enveloped_of_decode {t : Tank} (h : decode mode b = .ok ⟨.tankPacket, .tank t⟩) :
    ∃ surplus last, b = enveloped .tankPacket (t.written ++ surplus) last ∧
      t.tail.length < wordCount 4 ∧ (mode = .strict → surplus = []) := by
  cases verdict_iff.mpr h with
  | tank hlength htag hbody =>
      obtain ⟨surplus, hbytes, hdeclared, hstrict⟩ :=
        Tank.decode_eq_ok.mp (Tank.verdict_iff.mp hbody)
      have hroom : 5 ≤ b.length := by
        have hwritten := congrArg List.length hbytes
        simp only [bodyOf, List.length_dropLast, List.length_drop, List.length_append,
          Tank.length_written, Tank.structLength] at hwritten
        omega
      have htype : b.wordAt 0 4 = PacketType.tankPacket.tag := htag
      obtain ⟨last, hb⟩ := eq_enveloped hroom htype
      exact ⟨surplus, last, hbytes ▸ hb, hdeclared, hstrict⟩

/-- A message of the tank type that was read has a tank. -/
theorem exists_tank (h : decode mode b = .ok p) (htype : p.type = .tankPacket) :
    ∃ t, p = ⟨.tankPacket, .tank t⟩ := by
  cases verdict_iff.mpr h with
  | @tank t => exact ⟨t, rfl⟩
  | table _ _ hother | empty _ _ hother => simp_all

/-- A tank packet that was read is written as the bytes it was read from, but for the surplus behind
the declared tail and the last byte. -/
theorem bytes_of_encode {t : Tank} {b' : Bytes} (h : decode mode b = .ok ⟨.tankPacket, .tank t⟩)
    (hencode : encode ⟨.tankPacket, .tank t⟩ = .ok b') :
    60 + (bodyOf b).wordAt 52 4 < b.length ∧ b' = b.take (60 + (bodyOf b).wordAt 52 4) ++ [0] ∧
      (mode = .strict → b' = b.dropLast ++ [0]) := by
  obtain ⟨surplus, last, hb, hlength, hstrict⟩ := enveloped_of_decode h
  have hdeclared : (bodyOf b).wordAt 52 4 = t.tail.length := by
    rw [hb, bodyOf_enveloped, Tank.wordAt_declared hlength]
  have hbytes : b' = toLittle 4 PacketType.tankPacket.tag ++ t.written ++ [0] := by
    rw [encode, encodePayload] at hencode
    by_cases ht : t.Unannounced
    · rw [Tank.encode_of_unannounced ht] at hencode
      cases hencode
    · rw [Tank.encode_of_not_unannounced ht hlength] at hencode
      cases hencode
      rfl
  have hfront :
      (toLittle 4 PacketType.tankPacket.tag ++ t.written).length = 60 + t.tail.length := by
    simp only [List.length_append, length_toLittle, Tank.length_written, Tank.structLength]
    omega
  have hsplit : b = (toLittle 4 PacketType.tankPacket.tag ++ t.written) ++ (surplus ++ [last]) := by
    rw [hb, enveloped]
    simp only [List.append_assoc]
  rw [hdeclared, hbytes]
  refine ⟨?_, ?_, fun hmode => ?_⟩
  · have htotal := congrArg List.length hsplit
    rw [List.length_append, hfront, List.length_append, List.length_singleton] at htotal
    omega
  · rw [hsplit, List.take_left' hfront]
  · rw [hsplit, hstrict hmode, List.nil_append, List.dropLast_concat]

/-- A message that was read is written, unless a tail stands without its flag, and then its bytes
are read as the message again. Those of a tank packet are the bytes it was read from, without the
surplus behind the declared tail and with a zero at the end. -/
theorem rewritten (h : decode mode b = .ok p) :
    (∀ e, p.encode = .error e ↔ ∃ t, p = ⟨.tankPacket, .tank t⟩ ∧ t.Unannounced ∧
      e = .extendedDataWithoutFlag t.tail.length) ∧
    ∀ b', p.encode = .ok b' → (∀ mode', decode mode' b' = .ok p) ∧
      (p.type = .tankPacket →
        60 + (bodyOf b).wordAt 52 4 < b.length ∧
        b' = b.take (60 + (bodyOf b).wordAt 52 4) ++ [0] ∧
        (mode = .strict → b' = b.dropLast ++ [0])) := by
  refine ⟨fun e => encode_error_iff h, fun b' hencode => ⟨decode_of_encode h hencode, ?_⟩⟩
  intro htype
  obtain ⟨t, rfl⟩ := exists_tank h htype
  exact bytes_of_encode h hencode

/-- The bytes of the noisy call with a surplus of two bytes and another last byte. -/
def loose : Bytes :=
  [4, 0, 0, 0, 1, 0, 0, 0, 0, 0, 0, 0, 255, 255, 255, 255, 8, 0, 0, 0, 1, 0, 128, 127] ++
    List.replicate 32 0 ++ [3, 0, 0, 0, 0, 124, 10, 7, 7, 64]

/-- The call with a surplus is read in the relaxed mode. -/
theorem decode_loose : decode .relaxed loose = .ok noisy := by rfl

/-- The surplus goes, and the last byte is a zero again. -/
theorem rewritten_without_surplus : decode .relaxed loose = .ok noisy ∧
    ∃ b', noisy.encode = .ok b' ∧ b' = loose.take 63 ++ [0] ∧
      ∀ mode, decode mode b' = .ok noisy := by
  obtain ⟨hrefused, hwritten⟩ := rewritten decode_loose
  cases hencode : noisy.encode with
  | error e =>
      obtain ⟨t, ht, ⟨-, hflag⟩, -⟩ := (hrefused e).mp hencode
      cases ht
      cases hflag
  | ok b' =>
      obtain ⟨hread, htank⟩ := hwritten b' hencode
      exact ⟨decode_loose, b', rfl, (htank rfl).2.1, hread⟩

end Packet

end Intercept
