import Mathlib
import Intercept.Lane.Frame

/-!
# Intercept.Proofs.Lane.Frame

Frames of the binary lane as bytes.

```
version | op | direction | reserved | packet_id | interest_id | hit_count | packet_flags | packet
0         1    2           3          4           12            16          20             24
```

1. Bytes are `Headed` by an op and a direction if they have room for the header
   and the version and both codes are in place. They are read as the frame that
   is `spelt` in them, unless its packet is missing (`decode_of_headed`), and
   nothing else is read (`headed_of_decode`).
2. What is written is headed, and spells the frame (`headed_encode`,
   `spelt_encode`).
3. What is headed and spells a frame is what that frame writes, but for the
   reserved byte (`encode_spelt`).
-/

namespace Intercept

/-! ## codes -/

namespace FrameOp

/-- The codes are the numbers from one to six. -/
theorem exists_eq_code_iff {c : UInt8} : (∃ op : FrameOp, c = op.code) ↔ 1 ≤ c ∧ c ≤ 6 := by
  constructor
  · rintro ⟨op, rfl⟩
    cases op <;> decide
  · rintro ⟨hlow, hhigh⟩
    have hlow : 1 ≤ c.toNat := UInt8.le_iff_toNat_le.mp hlow
    have hhigh : c.toNat ≤ 6 := UInt8.le_iff_toNat_le.mp hhigh
    interval_cases hc : c.toNat
    exacts [⟨.deliver, UInt8.toNat_inj.mp hc⟩, ⟨.forward, UInt8.toNat_inj.mp hc⟩,
      ⟨.pass, UInt8.toNat_inj.mp hc⟩, ⟨.finish, UInt8.toNat_inj.mp hc⟩,
      ⟨.cancel, UInt8.toNat_inj.mp hc⟩, ⟨.push, UInt8.toNat_inj.mp hc⟩]

/-- A code is read as the op that has it. -/
theorem ofCode?_eq_some_iff {c : UInt8} {op : FrameOp} : ofCode? c = some op ↔ c = op.code := by
  constructor
  · intro h
    have hc : 1 ≤ c ∧ c ≤ 6 := by
      rw [ofCode?] at h
      split at h
      · cases h
      · next hzero =>
          have hne : c.toNat ≠ 0 := fun h0 => hzero (UInt8.toNat_inj.mp h0)
          have hlength : c.toNat - 1 < 6 := (List.getElem?_eq_some_iff.mp h).1
          have hhigh : c.toNat ≤ 6 := by omega
          exact ⟨UInt8.le_iff_toNat_le.mpr (Nat.one_le_iff_ne_zero.mpr hne),
            UInt8.le_iff_toNat_le.mpr hhigh⟩
    obtain ⟨op', rfl⟩ := exists_eq_code_iff.mpr hc
    rw [ofCode?_code] at h
    rw [Option.some.inj h]
  · rintro rfl
    exact ofCode?_code op

/-- The ops that need a packet, by their codes. -/
theorem needsPacket_iff_code {op : FrameOp} :
    op.needsPacket = true ↔ op.code = 1 ∨ op.code = 2 ∨ op.code = 4 ∨ op.code = 6 := by
  cases op <;> decide

/-- Only `pass` and `cancel` need no packet. -/
theorem needsPacket_eq_false_iff {op : FrameOp} :
    op.needsPacket = false ↔ op = .pass ∨ op = .cancel := by
  cases op <;> decide

end FrameOp

namespace Direction

/-- The codes are the numbers up to two. -/
theorem exists_eq_code_iff {c : UInt8} : (∃ d : Direction, c = d.code) ↔ c ≤ 2 := by
  constructor
  · rintro ⟨d, rfl⟩
    cases d <;> decide
  · intro hhigh
    have hhigh : c.toNat ≤ 2 := UInt8.le_iff_toNat_le.mp hhigh
    interval_cases hc : c.toNat
    exacts [⟨.unspecified, UInt8.toNat_inj.mp hc⟩, ⟨.clientToServer, UInt8.toNat_inj.mp hc⟩,
      ⟨.serverToClient, UInt8.toNat_inj.mp hc⟩]

theorem ofCode?_eq_some_iff {c : UInt8} {d : Direction} : ofCode? c = some d ↔ c = d.code := by
  constructor
  · intro h
    have hlength := (List.getElem?_eq_some_iff.mp h).1
    have hc : c ≤ 2 := UInt8.le_iff_toNat_le.mpr (Nat.le_of_lt_succ hlength)
    obtain ⟨d', rfl⟩ := exists_eq_code_iff.mpr hc
    rw [ofCode?_code] at h
    rw [Option.some.inj h]
  · rintro rfl
    exact ofCode?_code d

end Direction

namespace Frame

variable {b : Bytes} {f : Frame} {op : FrameOp} {d : Direction}

/-! ## reading -/

/-- The frame that is spelt behind the codes of its op and its direction. -/
def spelt (op : FrameOp) (d : Direction) (b : Bytes) : Frame where
  op := op
  direction := d
  packetId := UInt64.ofNat (b.wordAt 4 8)
  interestId := UInt32.ofNat (b.wordAt 12 4)
  hitCount := UInt32.ofNat (b.wordAt 16 4)
  packetFlags := UInt32.ofNat (b.wordAt 20 4)
  packet := b.drop headerLength

/-- There is room for the header, and its first bytes are the version and these codes. -/
structure Headed (op : FrameOp) (d : Direction) (b : Bytes) : Prop where
  length : headerLength ≤ b.length
  version : b[0]? = some version
  op : b[1]? = some op.code
  direction : b[2]? = some d.code

/-- A word of one byte is that byte. -/
theorem wordAt_one {c : UInt8} {i : Nat} (h : b[i]? = some c) : UInt8.ofNat (b.wordAt i 1) = c := by
  obtain ⟨hi, rfl⟩ := List.getElem?_eq_some_iff.mp h
  rw [Bytes.wordAt, List.drop_eq_getElem_cons hi, List.take_succ_cons, List.take_zero, ofLittle,
    ofLittle]
  exact UInt8.ofNat_toNat

/-- Headed bytes are read as the frame that is spelt in them, unless its packet is missing. -/
theorem decode_of_headed (h : Headed op d b) : decode b =
    if op.needsPacket ∧ b.drop headerLength = [] then .error (.badFrame .missingPacket)
    else .ok (spelt op d b) := by
  have hlong : ¬b.length < headerLength := Nat.not_lt.mpr h.length
  rw [decode, if_neg hlong]
  simp only [wordAt_one h.version, wordAt_one h.op, wordAt_one h.direction,
    FrameOp.ofCode?_code, Direction.ofCode?_code, ne_eq, not_true_eq_false, if_false]
  split <;> rfl

/-- Nothing is read that has no header. -/
theorem headed_of_decode (h : decode b = .ok f) : ∃ op d, Headed op d b := by
  by_cases hlong : b.length < headerLength
  · rw [decode, if_pos hlong] at h
    cases h
  · have hlength : headerLength ≤ b.length := Nat.not_lt.mp hlong
    rw [headerLength] at hlength
    have hbyte : ∀ i < 24, ∃ c, b[i]? = some c := fun i hi =>
      ⟨b[i], List.getElem?_eq_getElem (by omega)⟩
    obtain ⟨v, hv⟩ := hbyte 0 (by decide)
    obtain ⟨c, hc⟩ := hbyte 1 (by decide)
    obtain ⟨e, he⟩ := hbyte 2 (by decide)
    rw [decode, if_neg hlong] at h
    simp only [wordAt_one hv, wordAt_one hc, wordAt_one he] at h
    by_cases hversion : v = version
    · cases hop : FrameOp.ofCode? c with
      | none => simp [hversion, hop] at h
      | some op =>
          cases hd : Direction.ofCode? e with
          | none => simp [hversion, hop, hd] at h
          | some d =>
              rw [FrameOp.ofCode?_eq_some_iff] at hop
              rw [Direction.ofCode?_eq_some_iff] at hd
              exact ⟨op, d, hlength, hversion ▸ hv, hop ▸ hc, hd ▸ he⟩
    · rw [if_pos hversion] at h
      cases h

/-- Bytes are read as a frame if and only if they are headed, spell it, and have the packet it
needs. -/
theorem decode_eq_ok : decode b = .ok f ↔
    Headed f.op f.direction b ∧ (f.op.needsPacket → f.packet ≠ []) ∧
      spelt f.op f.direction b = f := by
  constructor
  · intro h
    obtain ⟨op, d, hheaded⟩ := headed_of_decode h
    rw [decode_of_headed hheaded] at h
    split at h
    · cases h
    · next hpacket =>
        cases h
        exact ⟨hheaded, fun hop hnil => hpacket ⟨hop, hnil⟩, rfl⟩
  · rintro ⟨hheaded, hpacket, hspelt⟩
    have hb : b.drop headerLength = f.packet := congrArg Frame.packet hspelt
    rw [decode_of_headed hheaded, hb, if_neg fun hmissing => hpacket hmissing.1 hmissing.2, hspelt]

/-! ## writing -/

/-- What is written is headed by its op and its direction. -/
theorem headed_encode (f : Frame) : Headed f.op f.direction f.encode where
  length := by
    simp only [encode, headerLength, List.length_append, length_toLittle, List.length_cons,
      List.length_nil]
    omega
  version := by simp [encode]
  op := by simp [encode]
  direction := by simp [encode]

theorem drop_encode (f : Frame) : f.encode.drop headerLength = f.packet := by
  rw [encode]
  exact List.drop_left' (by simp [headerLength])

/-- Each word of the header is found where it was written. -/
theorem spelt_encode (f : Frame) : spelt f.op f.direction f.encode = f := by
  have hid : f.packetId.toNat < wordCount 8 := f.packetId.toNat_lt
  have hinterest : f.interestId.toNat < wordCount 4 := f.interestId.toNat_lt
  have hhits : f.hitCount.toNat < wordCount 4 := f.hitCount.toNat_lt
  have hflags : f.packetFlags.toNat < wordCount 4 := f.packetFlags.toNat_lt
  rw [spelt, drop_encode]
  simp (disch := first | assumption | simp) only [encode, List.append_assoc, List.cons_append,
    List.nil_append, Bytes.wordAt_behind_byte, Bytes.wordAt_append_right, length_toLittle,
    Bytes.wordAt_toLittle, Nat.reduceSub, UInt64.ofNat_toNat, UInt32.ofNat_toNat]

/-- A field and what is behind it are what stood there. -/
theorem toLittle_append_drop {offset w : Nat} (h : offset + w ≤ b.length) :
    toLittle w (b.wordAt offset w) ++ b.drop (offset + w) = b.drop offset := by
  rw [Bytes.toLittle_wordAt h, ← List.drop_drop, List.take_append_drop]

/-- Writing what was spelt gives its bytes, but for the reserved one. -/
theorem encode_spelt (h : Headed op d b) : (spelt op d b).encode = b.set 3 0 := by
  have hlength : 24 ≤ b.length := h.length
  have hid : (UInt64.ofNat (b.wordAt 4 8)).toNat = b.wordAt 4 8 :=
    UInt64.toNat_ofNat_of_lt' (b.wordAt_lt 4 8)
  have hword (offset : Nat) : (UInt32.ofNat (b.wordAt offset 4)).toNat = b.wordAt offset 4 :=
    UInt32.toNat_ofNat_of_lt' (b.wordAt_lt offset 4)
  have hfront : b.take 3 = [version, op.code, d.code] := by
    rw [List.take_add_one, h.direction, List.take_add_one, h.op, List.take_add_one, h.version]
    rfl
  rw [List.set_eq_take_append_cons_drop, if_pos (by omega), hfront]
  simp only [encode, spelt, hid, hword, headerLength, List.append_assoc]
  rw [toLittle_append_drop (by omega), toLittle_append_drop (by omega),
    toLittle_append_drop (by omega), toLittle_append_drop (by omega)]
  rfl

/-! ## both ways -/

/-- A frame is read back unless it needs a packet and has none. -/
theorem decode_encode (f : Frame) : decode f.encode =
    if f.op = .pass ∨ f.op = .cancel ∨ f.packet ≠ [] then .ok f
    else .error (.badFrame .missingPacket) := by
  have hcomplete : (f.op = .pass ∨ f.op = .cancel ∨ f.packet ≠ []) ↔
      ¬(f.op.needsPacket = true ∧ f.packet = []) := by
    rw [not_and_or, Bool.not_eq_true, FrameOp.needsPacket_eq_false_iff, or_assoc]
  rw [decode_of_headed (headed_encode f), spelt_encode, drop_encode]
  simp only [hcomplete, ite_not]

/-- Bytes are a frame if and only if they are headed and have something behind, if their op needs
it. -/
theorem exists_decode_eq_ok_iff : (∃ f, decode b = .ok f) ↔
    ∃ op d, Headed op d b ∧ (op.needsPacket → headerLength < b.length) := by
  simp only [decode_eq_ok]
  constructor
  · rintro ⟨f, hheaded, hpacket, hspelt⟩
    refine ⟨f.op, f.direction, hheaded, fun hop => ?_⟩
    have hb : b.drop headerLength = f.packet := congrArg Frame.packet hspelt
    have hne := hpacket hop
    rwa [← hb, ne_eq, List.drop_eq_nil_iff, Nat.not_le] at hne
  · rintro ⟨op, d, hheaded, hpacket⟩
    refine ⟨spelt op d b, hheaded, fun hop => ?_, rfl⟩
    rw [spelt, ne_eq, List.drop_eq_nil_iff, Nat.not_le]
    exact hpacket hop

/-- A frame is read back unless its op needs a packet and there is none. Bytes are read just if they
have a header of known codes, and a packet where the op needs one; the frame that is read from them
writes them again with a zero in the reserved place. -/
theorem read_and_written :
    (∀ f : Frame, decode f.encode =
      if f.op = .pass ∨ f.op = .cancel ∨ f.packet ≠ [] then .ok f
      else .error (.badFrame .missingPacket)) ∧
    ∀ b : Bytes,
      ((∃ f, decode b = .ok f) ↔ 24 ≤ b.length ∧ b[0]? = some 1 ∧
        (∃ c, b[1]? = some c ∧ 1 ≤ c ∧ c ≤ 6 ∧
          (c = 1 ∨ c = 2 ∨ c = 4 ∨ c = 6 → 24 < b.length)) ∧
        ∃ c, b[2]? = some c ∧ c ≤ 2) ∧
      ∀ f, decode b = .ok f → f.encode = b.set 3 0 := by
  refine ⟨decode_encode, fun b => ⟨exists_decode_eq_ok_iff.trans ⟨?_, ?_⟩, fun f h => ?_⟩⟩
  · rintro ⟨op, d, hheaded, hpacket⟩
    obtain ⟨hlow, hhigh⟩ := FrameOp.exists_eq_code_iff.mp ⟨op, rfl⟩
    refine ⟨hheaded.length, hheaded.version, ⟨op.code, hheaded.op, hlow, hhigh, fun hop => ?_⟩,
      d.code, hheaded.direction, Direction.exists_eq_code_iff.mp ⟨d, rfl⟩⟩
    exact hpacket (FrameOp.needsPacket_iff_code.mpr hop)
  · rintro ⟨hlength, hversion, ⟨c, hc, hlow, hhigh, hpacket⟩, e, he, hthree⟩
    obtain ⟨op, rfl⟩ := FrameOp.exists_eq_code_iff.mpr ⟨hlow, hhigh⟩
    obtain ⟨d, rfl⟩ := Direction.exists_eq_code_iff.mpr hthree
    refine ⟨op, d, ⟨hlength, hversion, hc, he⟩, fun hop => hpacket ?_⟩
    exact FrameOp.needsPacket_iff_code.mp hop
  · obtain ⟨hheaded, -, hspelt⟩ := decode_eq_ok.mp h
    rw [← hspelt, encode_spelt hheaded]

/-- A pass for delivery 7, with a byte behind its header. -/
def wordyPass : Frame where
  op := .pass
  direction := .serverToClient
  packetId := 7
  interestId := 1
  hitCount := 0
  packetFlags := 9
  packet := [64]

/-- Its bytes with another reserved byte. -/
def blemished : Bytes :=
  [1, 3, 2, 255, 7, 0, 0, 0, 0, 0, 0, 0, 1, 0, 0, 0, 0, 0, 0, 0, 9, 0, 0, 0, 64]

/-- The reserved byte is cleared, and the byte behind the header stays. -/
theorem read_and_written_without_blemish : decode blemished = .ok wordyPass ∧
    wordyPass.encode = blemished.set 3 0 ∧ decode wordyPass.encode = .ok wordyPass := by
  have hread : decode blemished = .ok wordyPass := by rfl
  obtain ⟨hencode, hbytes⟩ := read_and_written
  exact ⟨hread, (hbytes blemished).2 wordyPass hread, (hencode wordyPass).trans (if_pos (.inl rfl))⟩

end Frame

end Intercept
